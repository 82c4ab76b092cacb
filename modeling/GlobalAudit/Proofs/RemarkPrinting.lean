import GlobalAudit.Proofs.Text
import Mathlib.Data.List.Forall2

/-! Printed comments are read back. The compiler prints strings in double quotes with escapes, of
which some are its own choice, and words as they are, with blanks in between; reading finds the same
strings and words again. -/
namespace GlobalAudit.Remark

/-! ## Strings -/

/-- The letters for the control characters from seven to thirteen. -/
def controlLetters : List Char := ['a', 'b', 't', 'n', 'v', 'f', 'r']

/-- The three decimal digits of a code. -/
def threeDigits (code : Nat) : List Char :=
  [code / 100, code / 10 % 10, code % 10].map Nat.digitChar

/-- A character that has no escape of its own. -/
structure IsOther (c : Char) : Prop where
  noQuote : c ≠ '"'
  noBackslash : c ≠ '\\'
  noControl : c.toNat < 7 ∨ 13 < c.toNat

/-- How a character may be printed between quotes. -/
inductive Spelling : Char → List Char → Prop where
  | quote : Spelling '"' ['\\', '"']
  | backslash : Spelling '\\' ['\\', '\\']
  | control {c letter : Char} (first : 7 ≤ c.toNat)
      (listed : controlLetters[c.toNat - 7]? = some letter) : Spelling c ['\\', letter]
  | decimal {c : Char} (other : IsOther c) (low : c.toNat < 256) :
      Spelling c ('\\' :: threeDigits c.toNat)
  | itself {c : Char} (other : IsOther c) : Spelling c [c]

section Strings

variable {c : Char} {chars : List Char}

theorem digitChar_isDigit {value : Nat} (small : value < 10) :
    (Nat.digitChar value).isDigit = true ∧ digit (Nat.digitChar value) = value := by
  revert value
  decide

theorem controlLetters_meaning {position : Nat} {letter : Char}
    (listed : controlLetters[position]? = some letter) :
    letter.isDigit = false ∧ meaning letter = Char.ofNat (7 + position) := by
  obtain ⟨inside, rfl⟩ := List.getElem?_eq_some_iff.mp listed
  clear listed
  revert position
  decide

/-- Whatever follows, a decimal escape stands for its code. -/
theorem foldl_step_decimal (done : List Remark) (value : String) {code : Nat} (low : code < 256)
    (next : Char) (rest : List Char) :
    ('\\' :: threeDigits code ++ next :: rest).foldl step ⟨done, .quoted value⟩ =
      (next :: rest).foldl step ⟨done, .quoted (value.push (Char.ofNat code))⟩ := by
  obtain ⟨firstDigit, first⟩ := digitChar_isDigit (show code / 100 < 10 by omega)
  obtain ⟨secondDigit, second⟩ := digitChar_isDigit (show code / 10 % 10 < 10 by omega)
  obtain ⟨thirdDigit, third⟩ := digitChar_isDigit (show code % 10 < 10 by omega)
  have whole : 10 * (10 * (code / 100) + code / 10 % 10) + code % 10 = code := by omega
  simp [threeDigits, step, stepQuoted, firstDigit, secondDigit, thirdDigit, first, second, third,
    whole]

theorem foldl_step_spelled (spelled : Spelling c chars) (done : List Remark) (value : String)
    (next : Char) (rest : List Char) :
    (chars ++ next :: rest).foldl step ⟨done, .quoted value⟩ =
      (next :: rest).foldl step ⟨done, .quoted (value.push c)⟩ := by
  cases spelled with
  | quote => rfl
  | backslash => rfl
  | control first listed =>
      obtain ⟨noDigit, same⟩ := controlLetters_meaning listed
      rw [Nat.add_sub_cancel' first, Char.ofNat_toNat] at same
      simp [step, stepQuoted, noDigit, same]
  | decimal other low =>
      have read := foldl_step_decimal done value low next rest
      rwa [Char.ofNat_toNat] at read
  | itself other => simp [step, stepQuoted, other.noQuote, other.noBackslash]

/-- A printed string is read up to its closing quote. -/
theorem foldl_step_string {spelled : List (List Char)} (each : List.Forall₂ Spelling chars spelled)
    (done : List Remark) (value : String) (rest : List Char) :
    (spelled.flatten ++ '"' :: rest).foldl step ⟨done, .quoted value⟩ =
      rest.foldl step ⟨done ++ [.text (value ++ String.ofList chars)], .gap⟩ := by
  induction each generalizing value with
  | nil => simp [step, stepQuoted]
  | @cons c first chars others spelledFirst _ ih =>
      obtain ⟨next, more, split⟩ : ∃ next more, others.flatten ++ '"' :: rest = next :: more :=
        List.exists_cons_of_ne_nil (List.append_ne_nil_of_right_ne_nil _ (List.cons_ne_nil _ _))
      have joined : value.push c ++ String.ofList chars = value ++ String.ofList (c :: chars) := by
        apply String.toList_inj.mp
        simp
      rw [List.flatten_cons, List.append_assoc, split, foldl_step_spelled spelledFirst, ← split, ih,
        joined]

theorem exists_spelling (c : Char) : ∃ chars, Spelling c chars := by
  by_cases quote : c = '"'
  · subst quote
    exact ⟨_, .quote⟩
  · by_cases backslash : c = '\\'
    · subst backslash
      exact ⟨_, .backslash⟩
    · by_cases control : 7 ≤ c.toNat ∧ c.toNat ≤ 13
      · have inside : c.toNat - 7 < controlLetters.length := by
          rw [show controlLetters.length = 7 from rfl]
          omega
        exact ⟨_, .control control.1 (List.getElem?_eq_getElem inside)⟩
      · exact ⟨_, .itself ⟨quote, backslash, by omega⟩⟩

end Strings

/-! ## Remarks -/

/-- Every string can be printed; a word has no blanks and does not look like a string. -/
def IsPrintable : Remark → Prop
  | .text _ => True
  | .word value => Text.IsWord value.toList ∧ value.toList.head? ≠ some '"'

/-- The printed forms of a remark. -/
inductive Prints : Remark → List Char → Prop where
  | text {value : String} {spelled : List (List Char)}
      (each : List.Forall₂ Spelling value.toList spelled) :
      Prints (.text value) ('"' :: (spelled.flatten ++ ['"']))
  | word (value : String) : Prints (.word value) value.toList

/-- The printed forms of remarks with blanks in between, one or more at each place. -/
inductive PrintsAll : List Remark → List Char → Prop where
  | nil : PrintsAll [] []
  | single {remark : Remark} {text : List Char} (printed : Prints remark text) :
      PrintsAll [remark] text
  | cons {remark next : Remark} {rest : List Remark} {text gap more : List Char}
      (printed : Prints remark text) (someGap : gap ≠ [])
      (blank : ∀ c ∈ gap, Text.isBlank c = true) (others : PrintsAll (next :: rest) more) :
      PrintsAll (remark :: next :: rest) (text ++ gap ++ more)

/-- At a blank or at the end, exactly these remarks have been read. -/
structure Closes (state : State) (remarks : List Remark) : Prop where
  atEnd : finish state = remarks
  atBlank : ∀ c, Text.isBlank c = true → step state c = ⟨remarks, .gap⟩

section Remarks

variable {remark : Remark} {remarks : List Remark} {text : List Char}

theorem closes_gap (remarks : List Remark) : Closes ⟨remarks, .gap⟩ remarks := by
  refine ⟨rfl, ?_⟩
  intro c blank
  simp [step, stepGap, blank]

theorem Closes.foldl_blank {state : State} (closes : Closes state remarks) {gap : List Char}
    (someGap : gap ≠ []) (blank : ∀ c ∈ gap, Text.isBlank c = true) :
    gap.foldl step state = ⟨remarks, .gap⟩ := by
  induction gap generalizing state with
  | nil => exact absurd rfl someGap
  | cons c rest ih =>
      obtain ⟨first, others⟩ := List.forall_mem_cons.mp blank
      rw [List.foldl_cons, closes.atBlank c first]
      cases rest with
      | nil => rfl
      | cons d more => exact ih (closes_gap remarks) (List.cons_ne_nil d more) others

/-- A printed remark is read, whichever remarks came before it. -/
theorem Prints.closes (printed : Prints remark text) (printable : IsPrintable remark)
    (done : List Remark) : Closes (text.foldl step ⟨done, .gap⟩) (done ++ [remark]) := by
  cases printed with
  | @text value spelled each =>
      have opened : step ⟨done, .gap⟩ '"' = ⟨done, .quoted ""⟩ := rfl
      rw [List.foldl_cons, opened, foldl_step_string each done "" [], List.foldl_nil,
        String.ofList_toList, String.empty_append]
      exact closes_gap _
  | word value =>
      obtain ⟨isWord, noQuote⟩ := printable
      obtain ⟨first, rest, chars⟩ := List.exists_cons_of_ne_nil isWord.nonempty
      have plain : first ≠ '"' := by
        rw [chars, List.head?_cons] at noQuote
        exact fun same => noQuote (congrArg some same)
      have read := foldl_step_first done plain (chars ▸ isWord.solid)
      rw [← chars, String.ofList_toList] at read
      rw [read]
      refine ⟨rfl, ?_⟩
      intro c blank
      simp [step, blank]

theorem finish_printsAll (printed : PrintsAll remarks text)
    (printable : ∀ remark ∈ remarks, IsPrintable remark) (done : List Remark) :
    finish (text.foldl step ⟨done, .gap⟩) = done ++ remarks := by
  induction printed generalizing done with
  | nil => exact (List.append_nil done).symm
  | single printed => exact (printed.closes (printable _ List.mem_cons_self) done).atEnd
  | cons printed someGap blank _ ih =>
      obtain ⟨first, others⟩ := List.forall_mem_cons.mp printable
      have read := (printed.closes first done).foldl_blank someGap blank
      rw [List.foldl_append, List.foldl_append, read, ih others, List.append_assoc,
        List.singleton_append]

theorem exists_prints (remark : Remark) : ∃ text, Prints remark text := by
  cases remark with
  | word value => exact ⟨_, .word value⟩
  | text value =>
      choose spelling spells using exists_spelling
      exact ⟨_, .text (List.forall₂_map_right_iff.mpr (List.forall₂_same.mpr fun c _ => spells c))⟩

theorem exists_printsAll (remarks : List Remark) : ∃ text, PrintsAll remarks text := by
  induction remarks with
  | nil => exact ⟨_, .nil⟩
  | cons remark rest ih =>
      obtain ⟨text, printed⟩ := exists_prints remark
      obtain ⟨more, others⟩ := ih
      cases rest with
      | nil => exact ⟨text, .single printed⟩
      | cons next rest =>
          have blank : ∀ c ∈ [' '], Text.isBlank c = true := List.forall_mem_singleton.mpr rfl
          exact ⟨text ++ [' '] ++ more, .cons printed (List.cons_ne_nil _ _) blank others⟩

end Remarks

/-- Reading a comment is the inverse of printing it: printable remarks can be printed, and however
their strings are escaped and however long the blanks between them are, the comment is read as
exactly these remarks. -/
theorem ofComment_printsAll {remarks : List Remark}
    (printable : ∀ remark ∈ remarks, IsPrintable remark) :
    (∃ text, PrintsAll remarks text) ∧
      ∀ text, PrintsAll remarks text → ofComment text = remarks := by
  refine ⟨exists_printsAll remarks, ?_⟩
  intro text printed
  rw [ofComment, finish_printsAll printed printable, List.nil_append]

/-- A quote inside a word, and a string in which a digit follows a decimal escape. -/
def mixedRemarks : List Remark := [.word "x\"y", .text "A1\"\n;", .word "-"]

theorem ofComment_mixedRemarks :
    (∀ remark ∈ mixedRemarks, IsPrintable remark) ∧
      ofComment "x\"y  \"\\0651\\\"\\n;\"\t-".toList = mixedRemarks := by
  have printable : ∀ remark ∈ mixedRemarks, IsPrintable remark := by
    rw [mixedRemarks, List.forall_mem_cons, List.forall_mem_cons, List.forall_mem_singleton]
    exact ⟨⟨by decide, by decide⟩, trivial, by decide, by decide⟩
  have letter : Spelling 'A' ['\\', '0', '6', '5'] :=
    .decimal ⟨by decide, by decide, by decide⟩ (by decide)
  have figure : Spelling '1' ['1'] := .itself ⟨by decide, by decide, by decide⟩
  have lineFeed : Spelling '\n' ['\\', 'n'] := .control (by decide) rfl
  have semicolon : Spelling ';' [';'] := .itself ⟨by decide, by decide, by decide⟩
  have string : Prints (.text "A1\"\n;") _ :=
    .text (.cons letter (.cons figure (.cons .quote (.cons lineFeed (.cons semicolon .nil)))))
  have tab : ∀ c ∈ ['\t'], Text.isBlank c = true := List.forall_mem_singleton.mpr rfl
  have twoBlanks : ∀ c ∈ [' ', ' '], Text.isBlank c = true :=
    List.forall_mem_cons.mpr ⟨rfl, List.forall_mem_singleton.mpr rfl⟩
  have printed : PrintsAll mixedRemarks "x\"y  \"\\0651\\\"\\n;\"\t-".toList :=
    .cons (.word "x\"y") (List.cons_ne_nil _ _) twoBlanks
      (.cons string (List.cons_ne_nil _ _) tab (.single (.word "-")))
  exact ⟨printable, (ofComment_printsAll printable).2 _ printed⟩

end GlobalAudit.Remark
