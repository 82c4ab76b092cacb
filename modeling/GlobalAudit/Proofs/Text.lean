import GlobalAudit.Proofs.Remark
import GlobalAudit.Text.Basic
import Mathlib.Data.List.Basic

/-! Reading back what was written: words between blanks, text between blank ends, numerals, and
lines. -/
namespace GlobalAudit.Text

theorem isBlank_of_isDigit {c : Char} (digit : c.isDigit = true) : isBlank c = false :=
  (Catalog.isPlain_of_isDigit digit).1

theorem cut?_append {mark : Char} {before : List Char} (absent : mark ∉ before)
    (after : List Char) : cut? mark (before ++ mark :: after) = some (before, after) := by
  induction before with
  | nil => simp [cut?]
  | cons c rest ih =>
      rw [List.mem_cons, not_or] at absent
      obtain ⟨differs, later⟩ := absent
      simp [cut?, Ne.symm differs, ih later]

theorem after?_append (start : String) (rest : List Char) :
    after? start (start.toList ++ rest) = some rest :=
  List.isPrefixOf?_eq_some_iff_append_eq.mpr rfl

theorem after?_cons_of_ne {start : String} {c d : Char} {more : List Char}
    (chars : start.toList = c :: more) (differs : c ≠ d) (rest : List Char) :
    after? start (d :: rest) = none := by
  simp [after?, chars, List.isPrefixOf?, differs]

/-! ## Words -/

/-- A text that is one word. -/
structure IsWord (text : List Char) : Prop where
  nonempty : text ≠ []
  solid : ∀ c ∈ text, isBlank c = false

instance (text : List Char) : Decidable (IsWord text) :=
  decidable_of_iff ((!text.isEmpty && text.all fun c => !isBlank c) = true)
    ⟨fun h => ⟨by simp_all, by simp_all⟩, fun ⟨nonempty, solid⟩ => by simp_all⟩

@[simp] theorem words_nil : words [] = [] := rfl

theorem words_append_cons {c : Char} (blank : isBlank c = true) (early late : List Char) :
    words (early ++ c :: late) = words early ++ words late := by
  rw [words, List.splitOnP_append_cons early late blank, List.filter_append]
  rfl

theorem words_cons_of_blank {c : Char} (blank : isBlank c = true) (text : List Char) :
    words (c :: text) = words text := words_append_cons blank [] text

theorem IsWord.words_eq {text : List Char} (word : IsWord text) : words text = [text] := by
  rw [words, List.splitOnP_eq_singleton word.solid]
  simp [word.nonempty]

theorem words_append_of_blank (text : List Char) {gap : List Char}
    (blank : ∀ c ∈ gap, isBlank c = true) : words (text ++ gap) = words text := by
  induction gap generalizing text with
  | nil => rw [List.append_nil]
  | cons c rest ih =>
      obtain ⟨first, later⟩ := List.forall_mem_cons.mp blank
      have behind : words rest = [] := by simpa using ih [] later
      rw [words_append_cons first, behind, List.append_nil]

/-! ## Trimming -/

theorem trimStart_cons_of_blank {c : Char} (blank : isBlank c = true) (text : List Char) :
    trimStart (c :: text) = trimStart text := List.dropWhile_cons_of_pos blank

theorem trimStart_cons_of_solid {c : Char} (solid : isBlank c = false) (text : List Char) :
    trimStart (c :: text) = c :: text := List.dropWhile_cons_of_neg (Bool.eq_false_iff.mp solid)

theorem trimEnd_concat_of_blank (text : List Char) {c : Char} (blank : isBlank c = true) :
    trimEnd (text ++ [c]) = trimEnd text := by
  rw [trimEnd, List.reverse_concat, List.dropWhile_cons_of_pos blank]
  rfl

theorem trimEnd_concat_of_solid (text : List Char) {c : Char} (solid : isBlank c = false) :
    trimEnd (text ++ [c]) = text ++ [c] := by
  rw [trimEnd, List.reverse_concat, List.dropWhile_cons_of_neg (Bool.eq_false_iff.mp solid)]
  simp

/-- A text that begins with a character that is not blank keeps it when trimmed. -/
theorem trimEnd_cons_of_solid {c : Char} (solid : isBlank c = false) (text : List Char) :
    trimEnd (c :: text) = c :: trimEnd text := by
  have last : List.dropWhile isBlank [c] = [c] :=
    List.dropWhile_cons_of_neg (Bool.eq_false_iff.mp solid)
  rw [trimEnd, trimEnd, List.reverse_cons, List.dropWhile_append, last]
  cases List.dropWhile isBlank text.reverse with
  | nil => rfl
  | cons first rest => simp

theorem trim_cons_of_blank {c : Char} (blank : isBlank c = true) (text : List Char) :
    trim (c :: text) = trim text := by
  rw [trim, trimStart_cons_of_blank blank]
  rfl

theorem trim_cons_of_solid {c : Char} (solid : isBlank c = false) (text : List Char) :
    trim (c :: text) = c :: trimEnd text := by
  rw [trim, trimStart_cons_of_solid solid, trimEnd_cons_of_solid solid]

theorem trim_concat_of_blank (text : List Char) {c : Char} (blank : isBlank c = true) :
    trim (text ++ [c]) = trim text := by
  have last : List.dropWhile isBlank [c] = [] := List.dropWhile_cons_of_pos blank
  rw [trim, trim, trimStart, trimStart, List.dropWhile_append, last]
  cases List.dropWhile isBlank text with
  | nil => rfl
  | cons first rest => exact trimEnd_concat_of_blank (first :: rest) blank

theorem words_trimStart (text : List Char) : words (trimStart text) = words text := by
  induction text with
  | nil => rfl
  | cons c rest ih =>
      cases blank : isBlank c with
      | true => rw [trimStart_cons_of_blank blank, words_cons_of_blank blank, ih]
      | false => rw [trimStart_cons_of_solid blank]

theorem words_trimEnd (text : List Char) : words (trimEnd text) = words text := by
  have parts : text = trimEnd text ++ (text.reverse.takeWhile isBlank).reverse := by
    rw [trimEnd, ← List.reverse_append, List.takeWhile_append_dropWhile, List.reverse_reverse]
  have gap : ∀ c ∈ (text.reverse.takeWhile isBlank).reverse, isBlank c = true := fun c member =>
    List.all_eq_true.mp List.all_takeWhile c (List.mem_reverse.mp member)
  calc words (trimEnd text)
      = words (trimEnd text ++ (text.reverse.takeWhile isBlank).reverse) :=
        (words_append_of_blank _ gap).symm
    _ = words text := by rw [← parts]

/-- Trimming takes no word away. -/
theorem words_trim (text : List Char) : words (trim text) = words text := by
  rw [trim, words_trimEnd, words_trimStart]

/-- A carriage return at the end is trimmed anyway. -/
theorem trim_dropReturn (line : List Char) : trim (dropReturn line) = trim line := by
  rw [dropReturn]
  split
  · rename_i ends
    obtain ⟨start, rfl⟩ := List.getLast?_eq_some_iff.mp ends
    rw [List.dropLast_concat, trim_concat_of_blank start (by decide)]
  · rfl

theorem length_trim_le (text : List Char) : (trim text).length ≤ text.length := by
  have shorter := (List.dropWhile_sublist isBlank (l := (trimStart text).reverse)).length_le
  have first := (List.dropWhile_sublist isBlank (l := text)).length_le
  rw [List.length_reverse] at shorter
  rw [trim, trimEnd, List.length_reverse]
  exact Nat.le_trans shorter first

theorem dropReturn_of_trim_eq {text : List Char} (trimmed : trim text = text) :
    dropReturn text = text := by
  rw [dropReturn, if_neg]
  intro ends
  obtain ⟨start, rfl⟩ := List.getLast?_eq_some_iff.mp ends
  have bound := length_trim_le start
  rw [← trim_concat_of_blank start (c := '\r') (by decide), trimmed, List.length_append] at bound
  exact Nat.not_succ_le_self _ bound

theorem not_mem_dropReturn {c : Char} {line : List Char} (absent : c ∉ line) :
    c ∉ dropReturn line := by
  rw [dropReturn]
  split
  · exact fun member => absent ((List.dropLast_sublist line).mem member)
  · exact absent

theorem dropReturn_append (text : List Char) {tail : List Char} (nonempty : tail ≠ []) :
    dropReturn (text ++ tail) = text ++ dropReturn tail := by
  have last : (text ++ tail).getLast? = tail.getLast? := by
    rw [List.getLast?_append, Option.or_of_isSome (List.getLast?_isSome.mpr nonempty)]
  rw [dropReturn, dropReturn, last]
  split
  · rw [List.dropLast_append_of_ne_nil nonempty]
  · rfl

theorem IsWord.trim_eq {text : List Char} (word : IsWord text) : trim text = text := by
  have start : trimStart text = text := by
    cases text with
    | nil => rfl
    | cons c rest => exact trimStart_cons_of_solid (word.solid c List.mem_cons_self) rest
  rw [trim, start]
  cases last : text.reverse with
  | nil => exact absurd (List.reverse_eq_nil_iff.mp last) word.nonempty
  | cons c rest =>
      have form : text = rest.reverse ++ [c] := by simpa using congrArg List.reverse last
      rw [form]
      exact trimEnd_concat_of_solid _ (word.solid c (by simp [form]))

theorem IsWord.trim_append_concat {word : List Char} (first : IsWord word) (rest : List Char)
    {c : Char} (solid : isBlank c = false) :
    trim (word ++ (rest ++ [c])) = word ++ (rest ++ [c]) := by
  cases word with
  | nil => exact absurd rfl first.nonempty
  | cons d more =>
      rw [List.cons_append, trim_cons_of_solid (first.solid d List.mem_cons_self),
        ← List.append_assoc, trimEnd_concat_of_solid _ solid]

theorem IsWord.not_mem {text : List Char} (word : IsWord text) {c : Char}
    (blank : isBlank c = true) : c ∉ text := by
  intro member
  rw [word.solid c member] at blank
  cases blank

/-- Words with single spaces between them. -/
theorem words_intercalate {given : List (List Char)} (each : ∀ word ∈ given, IsWord word) :
    words (List.intercalate [' '] given) = given := by
  induction given with
  | nil => rfl
  | cons word rest ih =>
      obtain ⟨first, later⟩ := List.forall_mem_cons.mp each
      cases rest with
      | nil => rw [List.intercalate_singleton, first.words_eq]
      | cons next others =>
          rw [List.intercalate_cons_cons, List.append_assoc, List.singleton_append,
            words_append_cons (by decide), first.words_eq, ih later]
          rfl

theorem intercalate_ne_nil {given : List (List Char)} (each : ∀ word ∈ given, IsWord word)
    (nonempty : given ≠ []) : List.intercalate [' '] given ≠ [] := by
  intro none
  have found := words_intercalate each
  rw [none] at found
  exact nonempty found.symm

theorem dropReturn_intercalate {given : List (List Char)} (each : ∀ word ∈ given, IsWord word) :
    dropReturn (List.intercalate [' '] given) = List.intercalate [' '] given := by
  induction given with
  | nil => rfl
  | cons word rest ih =>
      obtain ⟨first, later⟩ := List.forall_mem_cons.mp each
      cases rest with
      | nil => rw [List.intercalate_singleton, dropReturn_of_trim_eq first.trim_eq]
      | cons next others =>
          rw [List.intercalate_cons_cons,
            dropReturn_append _ (intercalate_ne_nil later (List.cons_ne_nil _ _)), ih later]

theorem not_mem_intercalate {given : List (List Char)} {c : Char} (other : c ≠ ' ')
    (each : ∀ word ∈ given, c ∉ word) : c ∉ List.intercalate [' '] given := by
  induction given with
  | nil => exact List.not_mem_nil
  | cons word rest ih =>
      obtain ⟨first, later⟩ := List.forall_mem_cons.mp each
      cases rest with
      | nil => rwa [List.intercalate_singleton]
      | cons next others =>
          rw [List.intercalate_cons_cons]
          simp [first, other, ih later]

/-! ## Numerals -/

theorem isDigit_of_mem_toDigits {c : Char} {value : Nat} (member : c ∈ Nat.toDigits 10 value) :
    c.isDigit = true := Nat.isDigit_of_mem_toDigits (by decide) (by decide) member

theorem isWord_toDigits (value : Nat) : IsWord (Nat.toDigits 10 value) :=
  ⟨Nat.toDigits_ne_nil, fun _ member => isBlank_of_isDigit (isDigit_of_mem_toDigits member)⟩

theorem not_mem_toDigits {c : Char} (other : c.isDigit = false) (value : Nat) :
    c ∉ Nat.toDigits 10 value := by
  intro member
  rw [isDigit_of_mem_toDigits member] at other
  cases other

theorem repr_eq_or (value : Int) : ∃ size,
    value.repr.toList = Nat.toDigits 10 size ∨ value.repr.toList = '-' :: Nat.toDigits 10 size := by
  cases value with
  | ofNat size => exact ⟨size, .inl Nat.toList_repr⟩
  | negSucc size => exact ⟨size + 1, .inr (by simp [Int.repr, Nat.toList_repr])⟩

theorem isWord_repr (value : Int) : IsWord value.repr.toList := by
  obtain ⟨size, chars | chars⟩ := repr_eq_or value
  · exact chars ▸ isWord_toDigits size
  · rw [chars]
    refine ⟨List.cons_ne_nil _ _, ?_⟩
    exact List.forall_mem_cons.mpr ⟨rfl, (isWord_toDigits size).solid⟩

theorem not_mem_repr {c : Char} (other : c.isDigit = false) (unsigned : c ≠ '-') (value : Int) :
    c ∉ value.repr.toList := by
  obtain ⟨size, chars | chars⟩ := repr_eq_or value
  · exact chars ▸ not_mem_toDigits other size
  · rw [chars, List.mem_cons, not_or]
    exact ⟨unsigned, not_mem_toDigits other size⟩

theorem digitsValue?_toDigits (value : Nat) :
    digitsValue? (Nat.toDigits 10 value) = some value := by
  have all : (Nat.toDigits 10 value).all Char.isDigit = true :=
    List.all_eq_true.mpr fun _ member => isDigit_of_mem_toDigits member
  have nonempty : (Nat.toDigits 10 value).isEmpty = false := by
    simp [Nat.toDigits_ne_nil]
  simp [digitsValue?, all, nonempty, Nat.ofDigitChars_ten_toDigits]

theorem toDigits_ne_cons {c : Char} (other : c.isDigit = false) (value : Nat) (rest : List Char) :
    Nat.toDigits 10 value ≠ c :: rest := by
  intro chars
  exact not_mem_toDigits other value (chars ▸ List.mem_cons_self)

theorem readBelow_toDigits {bound value : Nat} (fits : value < bound) :
    readBelow bound (Nat.toDigits 10 value) = some value := by
  rw [readBelow]
  · rw [digitsValue?_toDigits]
    simp [fits]
  · exact toDigits_ne_cons (by decide) value

theorem readOperand_repr {value : Int} (low : -(UInt32.size / 2 : Nat) ≤ value)
    (high : value < (UInt32.size / 2 : Nat)) : readOperand value.repr.toList = some value := by
  cases value with
  | ofNat size =>
      have chars : (Int.ofNat size).repr.toList = Nat.toDigits 10 size := Nat.toList_repr
      have fits : size < UInt32.size / 2 := Int.ofNat_lt.mp high
      rw [chars, readOperand]
      · rw [readBelow_toDigits fits]
        rfl
      · exact toDigits_ne_cons (by decide) size
  | negSucc size =>
      have chars : (Int.negSucc size).repr.toList = '-' :: Nat.toDigits 10 (size + 1) := by
        simp [Int.repr, Nat.toList_repr]
      have fits : size + 1 ≤ UInt32.size / 2 := by omega
      have kept : (some (size + 1)).filter (· ≤ UInt32.size / 2) = some (size + 1) :=
        Option.filter_some_pos (by simpa using fits)
      rw [chars, readOperand, digitsValue?_toDigits, kept]
      rfl

/-! ## Pieces and lines -/

theorem splitOn_of_not_mem {mark : Char} {text : List Char} (absent : mark ∉ text) :
    text.splitOn mark = [text] := by
  have apart : ∀ c ∈ text, (c == mark) = false := by
    intro c member
    simpa using fun same : c = mark => absent (same ▸ member)
  rw [List.splitOn_eq_splitOnP, List.splitOnP_eq_singleton apart]

/-- The piece before a mark is split off. -/
theorem splitOn_append_cons {mark : Char} {front : List Char} (absent : mark ∉ front)
    (rest : List Char) : (front ++ mark :: rest).splitOn mark = front :: rest.splitOn mark := by
  have first := splitOn_of_not_mem absent
  rw [List.splitOn_eq_splitOnP] at first
  rw [List.splitOn_eq_splitOnP, List.splitOn_eq_splitOnP,
    List.splitOnP_append_cons front rest (by simp), first]
  rfl

theorem lines_append_cons {line : List Char} (single : '\n' ∉ line) (rest : List Char) :
    lines (line ++ '\n' :: rest) = dropReturn line :: lines rest := by
  rw [lines, lines, splitOn_append_cons single]
  cases pieces : rest.splitOn '\n' with
  | nil => exact absurd pieces (List.splitOn_ne_nil _ _)
  | cons first others => rfl

theorem toList_unlines (given : List String) :
    (unlines given).toList = given.flatMap fun line => line.toList ++ ['\n'] := by
  rw [unlines, String.toList_join, List.flatMap_map]
  simp

/-- Lines are read back, up to a carriage return at the end of each. -/
theorem lines_unlines {given : List String} (single : ∀ line ∈ given, '\n' ∉ line.toList) :
    lines (unlines given).toList = given.map fun line => dropReturn line.toList := by
  rw [toList_unlines]
  induction given with
  | nil => rfl
  | cons line rest ih =>
      obtain ⟨first, later⟩ := List.forall_mem_cons.mp single
      rw [List.flatMap_cons, List.append_assoc, List.singleton_append, lines_append_cons first,
        ih later]
      rfl

end GlobalAudit.Text
