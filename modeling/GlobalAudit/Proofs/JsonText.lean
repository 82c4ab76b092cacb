import GlobalAudit.Json.Printer
import GlobalAudit.Json.Reader
import Mathlib.Data.List.Forall2
import Mathlib.Tactic.SplitIfs

/-!
# JSON text read back

A value is printed without blanks, and reading the text gives the value again, with its members in the
order in which they were printed. Only numerals that cannot be read at all are lost, and values that
nest too deep. Between the text and the value stand the tokens: the first pass of the reader gives the
tokens of a value back from its text, the second one the value from its tokens.
-/
namespace GlobalAudit.Json

section Runs

variable {σ α : Type} {step : σ → α → Option σ} {state next : σ}

theorem foldlM_cons_of_some {item : α} (stepped : step state item = some next) (rest : List α) :
    (item :: rest).foldlM step state = rest.foldlM step next := by
  rw [List.foldlM_cons, stepped]
  rfl

theorem foldlM_append_of_some {front : List α} (run : front.foldlM step state = some next)
    (rest : List α) : (front ++ rest).foldlM step state = rest.foldlM step next := by
  rw [List.foldlM_append, run]
  rfl

end Runs

theorem push_append_ofList (text : String) (c : Char) (rest : List Char) :
    text.push c ++ String.ofList rest = text ++ String.ofList (c :: rest) := by
  apply String.toList_injective
  simp

/-! ## Tokens of a value -/

mutual

def spelling : Json → List Token
  | .string text => [.string text]
  | .array items => .openArray :: ([.comma].intercalate (itemSpellings items) ++ [.closeArray])
  | .object members => .openObject :: ([.comma].intercalate (memberSpellings members) ++ [.closeObject])
  | word => [.literal word]

def itemSpellings : List Json → List (List Token)
  | [] => []
  | item :: rest => spelling item :: itemSpellings rest

def memberSpellings : List (String × Json) → List (List Token)
  | [] => []
  | (name, value) :: rest => (.string name :: .colon :: spelling value) :: memberSpellings rest

end

/-- All numerals in the value are such that they can be read. -/
inductive Readable : Json → Prop where
  | null : Readable .null
  | bool (value : Bool) : Readable (.bool value)
  | number {numeral : String} {parsed : Numeral} (parses : Numeral.parse? numeral.toList = some parsed)
      (inRange : parsed.inRange = true) : Readable (.number numeral)
  | string (text : String) : Readable (.string text)
  | array {items : List Json} (each : ∀ item ∈ items, Readable item) : Readable (.array items)
  | object {members : List (String × Json)} (each : ∀ member ∈ members, Readable member.2) :
      Readable (.object members)

/-! ## From text to tokens -/

/-- The text read so far ends with these tokens, the last one first. A bare word is a token only when
something else or the end of the text follows. -/
inductive Ends : Lexer → List Token → Prop where
  | gap (tokens : List Token) : Ends ⟨tokens, .gap⟩ tokens
  | word (tokens : List Token) {text : String} {value : Json} (meant : word? text = some value) :
      Ends ⟨tokens, .word text⟩ (.literal value :: tokens)

theorem Ends.finish {lexer : Lexer} {tokens : List Token} (ends : Ends lexer tokens) :
    lexer.finish = some tokens.reverse := by
  cases ends with
  | gap => rfl
  | word before meant =>
      unfold Lexer.finish
      simp only [meant, Option.map_some]

theorem step_word (tokens : List Token) (text : String) (c : Char) :
    Lexer.step ⟨tokens, .word text⟩ c =
      if isGap c || c == '"' || (punctuation? c).isSome then
        (word? text).map fun value => stepGap (.literal value :: tokens) c
      else some ⟨tokens, .word (text.push c)⟩ := rfl

theorem stepGap_punctuation {c : Char} {token : Token} (mark : punctuation? c = some token)
    (tokens : List Token) : stepGap tokens c = ⟨token :: tokens, .gap⟩ := by
  have notGap : isGap c = false := by
    rw [Bool.eq_false_iff]
    intro gap
    simp only [isGap, Bool.or_eq_true, beq_iff_eq] at gap
    rcases gap with ((rfl | rfl) | rfl) | rfl <;> cases mark
  have notQuote : c ≠ '"' := by
    rintro rfl
    cases mark
  rw [stepGap, notGap, if_neg Bool.false_ne_true, if_neg notQuote, mark]

/-- A mark of punctuation ends what is before it. -/
theorem Ends.step {lexer : Lexer} {tokens : List Token} (ends : Ends lexer tokens) {c : Char}
    {token : Token} (mark : punctuation? c = some token) :
    lexer.step c = some ⟨token :: tokens, .gap⟩ := by
  cases ends with
  | gap => rw [Lexer.step, stepGap_punctuation mark]
  | word before meant =>
      rw [step_word, mark, Option.isSome_some, Bool.or_true, if_pos rfl, meant, Option.map_some,
        stepGap_punctuation mark]

/-- The text stands for the tokens, wherever it begins behind other tokens. -/
def Lexes (text : List Char) (tokens : List Token) : Prop :=
  ∀ before, ∃ lexer, text.foldlM Lexer.step ⟨before, .gap⟩ = some lexer ∧
    Ends lexer (tokens.reverse ++ before)

namespace Lexes

theorem nil : Lexes [] [] := fun before => ⟨⟨before, .gap⟩, rfl, .gap before⟩

theorem append_punctuation {first second : List Char} {tokens more : List Token} {c : Char}
    {token : Token} (early : Lexes first tokens) (mark : punctuation? c = some token)
    (late : Lexes second more) : Lexes (first ++ c :: second) (tokens ++ token :: more) := by
  intro before
  obtain ⟨lexer, read, ends⟩ := early before
  obtain ⟨last, readOn, endsOn⟩ := late (token :: (tokens.reverse ++ before))
  refine ⟨last, ?_, ?_⟩
  · rw [foldlM_append_of_some read, foldlM_cons_of_some (ends.step mark), readOn]
  · simpa using endsOn

theorem tokens? {text : List Char} {tokens : List Token} (lexes : Lexes text tokens) :
    Json.tokens? text = some tokens := by
  obtain ⟨lexer, read, ends⟩ := lexes []
  rw [Json.tokens?, read, Option.bind_some, ends.finish, List.append_nil, List.reverse_reverse]

/-- Texts with commas between them. -/
theorem intercalate {texts : List (List Char)} {tokens : List (List Token)}
    (each : List.Forall₂ Lexes texts tokens) :
    Lexes ([','].intercalate texts) ([Token.comma].intercalate tokens) := by
  induction each with
  | nil => exact .nil
  | @cons text spelled texts tokens first rest ih =>
      cases rest with
      | nil => simpa using first
      | cons second others =>
          rw [List.intercalate_cons_cons, List.intercalate_cons_cons, List.append_assoc,
            List.append_assoc]
          exact first.append_punctuation rfl ih

/-- Between two marks. -/
theorem enclosed {text : List Char} {tokens : List Token} (lexes : Lexes text tokens)
    (left right : Char) {opening closing : Token} (isOpening : punctuation? left = some opening)
    (isClosing : punctuation? right = some closing) :
    Lexes (left :: (text ++ [right])) (opening :: (tokens ++ [closing])) :=
  append_punctuation .nil isOpening (lexes.append_punctuation isClosing .nil)

end Lexes

/-! ### Strings -/

theorem hexDigit?_digitChar : ∀ digit < 16, hexDigit? (Nat.digitChar digit) = some digit := by
  decide

/-- A control character written by its code. -/
theorem foldlM_step_code (tokens : List Token) (text : String) {c : Char} (control : c.toNat < 0x20) :
    ['\\', 'u', '0', '0', Nat.digitChar (c.toNat / 16), Nat.digitChar (c.toNat % 16)].foldlM
      Lexer.step ⟨tokens, .quoted text⟩ = some ⟨tokens, .quoted (text.push c)⟩ := by
  have high := hexDigit?_digitChar (c.toNat / 16) (by omega)
  have low := hexDigit?_digitChar (c.toNat % 16) (by omega)
  have zero : hexDigit? '0' = some 0 := by decide
  have code : 16 * (c.toNat / 16) + c.toNat % 16 = c.toNat := by omega
  have closed : closeHex text none c.toNat = some (.quoted (text.push c)) := by
    rw [closeHex, if_neg (by omega), if_neg (by omega), Char.ofNat_toNat]
  simp [Lexer.step, zero, high, low, code, closed]

theorem foldlM_step_escaped (tokens : List Token) (text : String) (c : Char) :
    (escaped c).toList.foldlM Lexer.step ⟨tokens, .quoted text⟩ =
      some ⟨tokens, .quoted (text.push c)⟩ := by
  have letter (code : Char) {meant : Char} (escape : escape? code = some meant) (notCode : code ≠ 'u') :
      ['\\', code].foldlM Lexer.step ⟨tokens, .quoted text⟩ =
        some ⟨tokens, .quoted (text.push meant)⟩ := by
    simp [Lexer.step, escape, notCode]
  have named {code : Nat} (same : c.toNat = code) : c = Char.ofNat code := by
    rw [← same, Char.ofNat_toNat]
  rw [escaped]
  split_ifs with quote backslash backspace feed newline carriage tab control
  · exact quote ▸ letter '"' rfl (by decide)
  · exact backslash ▸ letter '\\' rfl (by decide)
  · exact named backspace ▸ letter 'b' rfl (by decide)
  · exact named feed ▸ letter 'f' rfl (by decide)
  · exact newline ▸ letter 'n' rfl (by decide)
  · exact carriage ▸ letter 'r' rfl (by decide)
  · exact tab ▸ letter 't' rfl (by decide)
  · rw [String.toList_ofList]
    exact foldlM_step_code tokens text control
  · simp [Lexer.step, quote, backslash, control]

theorem foldlM_step_escapes (tokens : List Token) (text : String) (chars : List Char) :
    (chars.flatMap fun c => (escaped c).toList).foldlM Lexer.step ⟨tokens, .quoted text⟩ =
      some ⟨tokens, .quoted (text ++ String.ofList chars)⟩ := by
  induction chars generalizing text with
  | nil => simp
  | cons c rest ih =>
      rw [List.flatMap_cons, foldlM_append_of_some (foldlM_step_escaped tokens text c), ih,
        push_append_ofList]

theorem lexes_quoted (text : String) : Lexes (quoted text).toList [.string text] := by
  intro before
  refine ⟨⟨.string text :: before, .gap⟩, ?_, .gap _⟩
  have opened : Lexer.step ⟨before, .gap⟩ '"' = some ⟨before, .quoted ""⟩ := rfl
  have closed : Lexer.step ⟨before, .quoted text⟩ '"' = some ⟨.string text :: before, .gap⟩ := rfl
  have chars : (quoted text).toList =
      '"' :: (text.toList.flatMap (fun c => (escaped c).toList) ++ ['"']) := by
    simp [quoted, String.toList_join, List.flatMap_map]
  rw [chars, foldlM_cons_of_some opened, foldlM_append_of_some (foldlM_step_escapes before "" _),
    String.ofList_toList, String.empty_append, foldlM_cons_of_some closed]
  rfl

/-! ### Words -/

/-- The character may stand in a bare word. -/
def isPlain (c : Char) : Bool := !(isGap c || c == '"' || (punctuation? c).isSome)

theorem isPlain_iff (c : Char) :
    isPlain c = true ↔ isGap c = false ∧ c ≠ '"' ∧ punctuation? c = none := by
  simp [isPlain, and_assoc]

theorem foldlM_step_word (tokens : List Token) (text : String) {chars : List Char}
    (plain : ∀ c ∈ chars, isPlain c = true) :
    chars.foldlM Lexer.step ⟨tokens, .word text⟩ = some ⟨tokens, .word (text ++ String.ofList chars)⟩ := by
  induction chars generalizing text with
  | nil => simp
  | cons c rest ih =>
      obtain ⟨first, later⟩ := List.forall_mem_cons.mp plain
      have pushed : Lexer.step ⟨tokens, .word text⟩ c = some ⟨tokens, .word (text.push c)⟩ := by
        rw [step_word, if_neg]
        simpa [isPlain] using first
      rw [foldlM_cons_of_some pushed, ih _ later, push_append_ofList]

theorem lexes_word {text : String} {value : Json} (meant : word? text = some value)
    (plain : ∀ c ∈ text.toList, isPlain c = true) : Lexes text.toList [.literal value] := by
  intro before
  refine ⟨⟨before, .word text⟩, ?_, .word before meant⟩
  cases chars : text.toList with
  | nil =>
      cases String.toList_eq_nil_iff.mp chars
      cases meant
  | cons c rest =>
      rw [chars] at plain
      obtain ⟨first, later⟩ := List.forall_mem_cons.mp plain
      obtain ⟨notGap, notQuote, notMark⟩ := (isPlain_iff c).mp first
      have begun : Lexer.step ⟨before, .gap⟩ c = some ⟨before, .word ("".push c)⟩ := by
        simp only [Lexer.step, stepGap, notGap, Bool.false_eq_true, if_false, notQuote, notMark]
        rfl
      rw [foldlM_cons_of_some begun, foldlM_step_word _ _ later, push_append_ofList, ← chars,
        String.ofList_toList, String.empty_append]

/-- Digits and the marks that stand between them in a numeral. -/
def isNumeric (c : Char) : Bool := c.isDigit || ['-', '+', '.', 'e', 'E'].contains c

theorem isPlain_of_isNumeric {c : Char} (numeric : isNumeric c = true) : isPlain c = true := by
  have differs {other : Char} (foreign : isNumeric other = false) : c ≠ other := by
    rintro rfl
    rw [numeric] at foreign
    cases foreign
  refine (isPlain_iff c).mpr ⟨?_, differs (by decide), ?_⟩
  · simp only [isGap, Bool.or_eq_false_iff, beq_eq_false_iff_ne]
    exact ⟨⟨⟨differs (by decide), differs (by decide)⟩, differs (by decide)⟩, differs (by decide)⟩
  · rw [punctuation?] <;> exact differs (by decide)

theorem isNumeric_of_isDigit {chars : List Char} (digits : chars.all Char.isDigit = true) :
    ∀ c ∈ chars, isNumeric c = true := by
  intro c member
  rw [isNumeric, List.all_eq_true.mp digits c member, Bool.true_or]

namespace Numeral

theorem isNumeric_of_exponent? {text : List Char} {size : Int} (reads : exponent? text = some size) :
    ∀ c ∈ text, isNumeric c = true := by
  unfold exponent? at reads
  split at reads
  · intro c member
    cases member
  · obtain ⟨isMark, reads⟩ := Option.ite_none_right_eq_some.mp reads
    refine List.forall_mem_cons.mpr ⟨by rcases isMark with rfl | rfl <;> decide, ?_⟩
    split at reads
    rename_i negative digits sign
    obtain ⟨proper, _⟩ := Option.ite_none_right_eq_some.mp reads
    have numeric : ∀ c ∈ digits, isNumeric c = true :=
      isNumeric_of_isDigit ((Bool.and_eq_true _ _).mp proper).2
    split at sign
    · cases sign
      exact List.forall_mem_cons.mpr ⟨by decide, numeric⟩
    · cases sign
      exact List.forall_mem_cons.mpr ⟨by decide, numeric⟩
    · cases sign
      exact numeric

theorem isNumeric_of_parse? {text : List Char} {numeral : Numeral} (reads : parse? text = some numeral) :
    ∀ c ∈ text, isNumeric c = true := by
  have run (chars : List Char) : ∀ c ∈ chars.takeWhile Char.isDigit, isNumeric c = true :=
    isNumeric_of_isDigit List.all_takeWhile
  unfold parse? at reads
  extract_lets unsigned whole rest at reads
  have signed : (∀ c ∈ unsigned, isNumeric c = true) → ∀ c ∈ text, isNumeric c = true := by
    intro numeric
    dsimp only [unsigned] at numeric
    split at numeric
    · exact List.forall_mem_cons.mpr ⟨by decide, numeric⟩
    · exact numeric
  apply signed
  rw [← List.takeWhile_append_dropWhile (p := Char.isDigit) (l := unsigned)]
  refine List.forall_mem_append.mpr ⟨run unsigned, ?_⟩
  obtain ⟨_, reads⟩ := Option.ite_none_left_eq_some.mp reads
  change ∀ c ∈ rest, isNumeric c = true
  clear_value rest
  split at reads
  · rename_i behind _
    obtain ⟨_, reads⟩ := Option.ite_none_left_eq_some.mp reads
    obtain ⟨size, exponent, _⟩ := Option.map_eq_some_iff.mp reads
    refine List.forall_mem_cons.mpr ⟨by decide, ?_⟩
    rw [← List.takeWhile_append_dropWhile (p := Char.isDigit) (l := behind)]
    exact List.forall_mem_append.mpr ⟨run behind, isNumeric_of_exponent? exponent⟩
  · obtain ⟨size, exponent, _⟩ := Option.map_eq_some_iff.mp reads
    exact isNumeric_of_exponent? exponent

end Numeral

theorem lexes_numeral {numeral : String} {parsed : Numeral}
    (parses : Numeral.parse? numeral.toList = some parsed) (inRange : parsed.inRange = true) :
    Lexes numeral.toList [.literal (.number numeral)] := by
  have numeric := Numeral.isNumeric_of_parse? parses
  have noWord {word : String} (foreign : word.toList.all isNumeric = false) : numeral ≠ word := by
    rintro rfl
    rw [List.all_eq_true.mpr numeric] at foreign
    cases foreign
  refine lexes_word ?_ fun c member => isPlain_of_isNumeric (numeric c member)
  rw [word?, if_neg (noWord (by decide)), if_neg (noWord (by decide)), if_neg (noWord (by decide))]
  simp only [parses, inRange, if_true]

/-! ### Values -/

mutual

theorem lexes_render : (value : Json) → value.Readable → Lexes value.render.toList value.spelling
  | .null, _ => lexes_word rfl (List.all_eq_true.mp (by decide))
  | .bool true, _ => lexes_word rfl (List.all_eq_true.mp (by decide))
  | .bool false, _ => lexes_word rfl (List.all_eq_true.mp (by decide))
  | .number numeral, readable => by
      cases readable with
      | number parses inRange => exact lexes_numeral parses inRange
  | .string text, _ => lexes_quoted text
  | .array items, readable => by
      cases readable with
      | array each =>
          simpa [render, spelling, String.toList_intercalate] using
            (Lexes.intercalate (lexes_renderItems items each)).enclosed '[' ']' rfl rfl
  | .object members, readable => by
      cases readable with
      | object each =>
          simpa [render, spelling, String.toList_intercalate] using
            (Lexes.intercalate (lexes_renderMembers members each)).enclosed '\x7b' '\x7d' rfl rfl

theorem lexes_renderItems : (items : List Json) → (∀ item ∈ items, item.Readable) →
    List.Forall₂ Lexes ((renderItems items).map String.toList) (itemSpellings items)
  | [], _ => .nil
  | item :: rest, readable => by
      obtain ⟨first, later⟩ := List.forall_mem_cons.mp readable
      exact .cons (lexes_render item first) (lexes_renderItems rest later)

theorem lexes_renderMembers : (members : List (String × Json)) →
    (∀ member ∈ members, member.2.Readable) →
    List.Forall₂ Lexes ((renderMembers members).map String.toList) (memberSpellings members)
  | [], _ => .nil
  | (name, value) :: rest, readable => by
      obtain ⟨first, later⟩ := List.forall_mem_cons.mp readable
      have member : Lexes ((quoted name ++ ":" ++ value.render).toList)
          (.string name :: .colon :: value.spelling) := by
        simpa using (lexes_quoted name).append_punctuation (c := ':') rfl (lexes_render value first)
      exact .cons member (lexes_renderMembers rest later)

end

/-! ## From tokens to a value -/

mutual

/-- How deep arrays and objects are nested. -/
def depth : Json → Nat
  | .array items => itemsDepth items + 1
  | .object members => membersDepth members + 1
  | _ => 0

def itemsDepth : List Json → Nat
  | [] => 0
  | item :: rest => max (depth item) (itemsDepth rest)

def membersDepth : List (String × Json) → Nat
  | [] => 0
  | (_, value) :: rest => max (depth value) (membersDepth rest)

end

/-- A value may come next. -/
inductive Expected.AwaitsValue : Expected → Prop where
  | value : AwaitsValue .value
  | valueOrClose : AwaitsValue .valueOrClose

/-- A member may come next. -/
inductive Expected.AwaitsName : Expected → Prop where
  | name : AwaitsName .name
  | nameOrClose : AwaitsName .nameOrClose

mutual

/-- A value is built from its tokens and goes where a value is expected. -/
theorem foldlM_spelling : (value : Json) → (frames : List Frame) → {expected : Expected} →
    expected.AwaitsValue → frames.length + value.depth ≤ depthLimit →
    value.spelling.foldlM Builder.step ⟨frames, expected⟩ = some (deliver value frames)
  | .null, _, _, awaits, _ => by cases awaits <;> rfl
  | .bool _, _, _, awaits, _ => by cases awaits <;> rfl
  | .number _, _, _, awaits, _ => by cases awaits <;> rfl
  | .string _, _, _, awaits, _ => by cases awaits <;> rfl
  | .array items, frames, expected, awaits, fits => by
      rw [depth] at fits
      have room : frames.length < depthLimit := by omega
      have entered : Builder.step ⟨frames, expected⟩ .openArray =
          some ⟨.array [] :: frames, .valueOrClose⟩ := by
        cases awaits <;> exact if_pos room
      rw [spelling, foldlM_cons_of_some entered]
      by_cases empty : items = []
      · subst empty
        rfl
      · rw [foldlM_append_of_some (foldlM_itemSpellings items empty [] frames .valueOrClose (by omega)),
          List.append_nil]
        change some (deliver (.array items.reverse.reverse) frames) = _
        rw [List.reverse_reverse]
  | .object members, frames, expected, awaits, fits => by
      rw [depth] at fits
      have room : frames.length < depthLimit := by omega
      have entered : Builder.step ⟨frames, expected⟩ .openObject =
          some ⟨.object [] "" :: frames, .nameOrClose⟩ := by
        cases awaits <;> exact if_pos room
      rw [spelling, foldlM_cons_of_some entered]
      by_cases empty : members = []
      · subst empty
        rfl
      · rw [foldlM_append_of_some
            (foldlM_memberSpellings members empty [] frames .nameOrClose (by omega)),
          List.append_nil]
        change some (deliver (.object members.reverse.reverse) frames) = _
        rw [List.reverse_reverse]

/-- Items with commas between them go into the array that is open. -/
theorem foldlM_itemSpellings : (items : List Json) → items ≠ [] → (done : List Json) →
    (frames : List Frame) → {expected : Expected} → expected.AwaitsValue →
    frames.length + 1 + itemsDepth items ≤ depthLimit →
    ([Token.comma].intercalate (itemSpellings items)).foldlM Builder.step
        ⟨.array done :: frames, expected⟩ =
      some ⟨.array (items.reverse ++ done) :: frames, .separator⟩
  | [], proper, _, _, _, _, _ => absurd rfl proper
  | item :: rest, _, done, frames, expected, awaits, fits => by
      rw [itemsDepth] at fits
      have first := foldlM_spelling item (.array done :: frames) awaits (by
        rw [List.length_cons]
        omega)
      cases rest with
      | nil =>
          rw [itemSpellings, itemSpellings, List.intercalate_singleton, first]
          rfl
      | cons next rest =>
          have later := foldlM_itemSpellings (next :: rest) (List.cons_ne_nil _ _) (item :: done) frames
            .value (by omega)
          rw [itemSpellings, itemSpellings, List.intercalate_cons_cons, ← itemSpellings,
            List.append_assoc, foldlM_append_of_some first, List.reverse_cons, List.append_assoc]
          exact later

/-- Members with commas between them go into the object that is open. -/
theorem foldlM_memberSpellings : (members : List (String × Json)) → members ≠ [] →
    (done : List (String × Json)) → (frames : List Frame) → {expected : Expected} →
    expected.AwaitsName → frames.length + 1 + membersDepth members ≤ depthLimit →
    ([Token.comma].intercalate (memberSpellings members)).foldlM Builder.step
        ⟨.object done "" :: frames, expected⟩ =
      some ⟨.object (members.reverse ++ done) "" :: frames, .separator⟩
  | [], proper, _, _, _, _, _ => absurd rfl proper
  | (name, value) :: rest, _, done, frames, expected, awaits, fits => by
      rw [membersDepth] at fits
      have first : (Token.string name :: .colon :: value.spelling).foldlM Builder.step
          ⟨.object done "" :: frames, expected⟩ =
            some ⟨.object ((name, value) :: done) "" :: frames, .separator⟩ := by
        have built := foldlM_spelling value (.object done name :: frames) .value (by
          rw [List.length_cons]
          omega)
        cases awaits <;> exact built
      cases rest with
      | nil =>
          rw [memberSpellings, memberSpellings, List.intercalate_singleton, first]
          rfl
      | cons next rest =>
          have later := foldlM_memberSpellings (next :: rest) (List.cons_ne_nil _ _)
            ((name, value) :: done) frames .name (by omega)
          rw [memberSpellings, memberSpellings, List.intercalate_cons_cons, ← memberSpellings,
            List.append_assoc, foldlM_append_of_some first, List.reverse_cons, List.append_assoc]
          exact later

end

/-- A printed value is read back. -/
theorem parse?_render {value : Json} (readable : value.Readable) (shallow : value.depth ≤ depthLimit) :
    parse? value.render.toList = some value := by
  have built := foldlM_spelling value [] .value (by simpa using shallow)
  rw [parse?, (lexes_render value readable).tokens?, Option.bind_eq_bind, Option.bind_some, built]
  rfl

end GlobalAudit.Json
