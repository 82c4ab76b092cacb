import GlobalAudit.Proofs.Layout

/-!
# The grammar of instruction lines

Which lines hold an instruction, and which one, said by the pieces of the line alone. Reading a line
goes from piece to piece and stops at the first one that is wrong, so every line is in exactly one of
four classes: no instruction line at all, an instruction, an unknown mnemonic behind sound columns,
or malformed.
-/
namespace GlobalAudit

namespace Text

/-! ## Blanks and words -/

def AllBlank (text : List Char) : Prop := ∀ c ∈ text, isBlank c = true

/-- Words with blanks between them, and with any blanks before the first and behind the last. -/
inductive Spaced : List (List Char) → List Char → Prop where
  | nil {gap : List Char} (blank : AllBlank gap) : Spaced [] gap
  | cons {gap word rest : List Char} {words : List (List Char)} (blank : AllBlank gap)
      (solid : IsWord word) (apart : ∀ c ∈ rest.head?, isBlank c = true)
      (later : Spaced words rest) : Spaced (word :: words) (gap ++ (word ++ rest))

theorem Spaced.word {word rest : List Char} {words : List (List Char)} (solid : IsWord word)
    (apart : ∀ c ∈ rest.head?, isBlank c = true) (later : Spaced words rest) :
    Spaced (word :: words) (word ++ rest) :=
  @Spaced.cons [] word rest words (List.forall_mem_nil _) solid apart later

theorem trimStart_append_of_blank {gap : List Char} (blank : AllBlank gap) (text : List Char) :
    trimStart (gap ++ text) = trimStart text := List.dropWhile_append_of_pos blank

theorem words_append_of_blank_left {gap : List Char} (blank : AllBlank gap) (text : List Char) :
    words (gap ++ text) = words text := by
  rw [← words_trimStart, trimStart_append_of_blank blank, words_trimStart]

theorem Spaced.words_eq {given : List (List Char)} {text : List Char} (spaced : Spaced given text) :
    words text = given := by
  induction spaced with
  | nil blank => simpa using words_append_of_blank [] blank
  | @cons gap word rest given blank solid apart later ih =>
      rw [words_append_of_blank_left blank]
      cases rest with
      | nil =>
          rw [words_nil] at ih
          rw [List.append_nil, solid.words_eq, ih]
      | cons c more =>
          have between : isBlank c = true := apart c rfl
          rw [words_append_cons between, solid.words_eq, ← words_cons_of_blank between more, ih]
          rfl

/-- Every text is some words with blanks around them. -/
theorem exists_spaced (text : List Char) : ∃ given, Spaced given text := by
  induction text with
  | nil => exact ⟨[], .nil (List.forall_mem_nil _)⟩
  | cons c rest ih =>
      obtain ⟨given, spaced⟩ := ih
      have one (solid : isBlank c = false) : IsWord [c] :=
        ⟨List.cons_ne_nil _ _, by simpa using solid⟩
      -- A blank goes to the gap in front. Any other character begins a word, which is the next one
      -- continued where there is no gap before that.
      cases blank : isBlank c with
      | true =>
          cases spaced with
          | nil gap => exact ⟨[], .nil (List.forall_mem_cons.mpr ⟨blank, gap⟩)⟩
          | cons gap solid apart later =>
              rw [← List.cons_append]
              exact ⟨_, .cons (List.forall_mem_cons.mpr ⟨blank, gap⟩) solid apart later⟩
      | false =>
          cases spaced with
          | nil gap =>
              refine ⟨[[c]], .word (one blank) ?_ (.nil gap)⟩
              intro d first
              exact gap d (List.mem_of_mem_head? first)
          | @cons gap word rest given allBlank solid apart later =>
              cases gap with
              | nil =>
                  have longer : IsWord (c :: word) :=
                    ⟨List.cons_ne_nil _ _, List.forall_mem_cons.mpr ⟨blank, solid.solid⟩⟩
                  exact ⟨_, .word longer apart later⟩
              | cons d gap =>
                  refine ⟨_, .word (one blank) ?_ (.cons allBlank solid apart later)⟩
                  intro e first
                  cases first
                  exact allBlank d List.mem_cons_self

theorem words_eq_iff {given : List (List Char)} {text : List Char} :
    words text = given ↔ Spaced given text := by
  constructor
  · rintro rfl
    obtain ⟨found, spaced⟩ := exists_spaced text
    rwa [spaced.words_eq]
  · exact Spaced.words_eq

/-! ## Blank ends -/

/-- What is left of a text without the blanks at its two ends. -/
structure Trims (text inner : List Char) : Prop where
  around : ∃ lead trail, AllBlank lead ∧ AllBlank trail ∧ text = lead ++ (inner ++ trail)
  first : ∀ c ∈ inner.head?, isBlank c = false
  last : ∀ c ∈ inner.getLast?, isBlank c = false

theorem trimEnd_append_of_blank (text : List Char) {gap : List Char} (blank : AllBlank gap) :
    trimEnd (text ++ gap) = trimEnd text := by
  rw [trimEnd, List.reverse_append, List.dropWhile_append_of_pos]
  · rfl
  · exact fun c member => blank c (List.mem_reverse.mp member)

theorem trimStart_of_first {text : List Char} (first : ∀ c ∈ text.head?, isBlank c = false) :
    trimStart text = text := by
  cases text with
  | nil => rfl
  | cons c rest => exact trimStart_cons_of_solid (first c rfl) rest

theorem trimEnd_of_last {text : List Char} (last : ∀ c ∈ text.getLast?, isBlank c = false) :
    trimEnd text = text := by
  have reversed : trimStart text.reverse = text.reverse :=
    trimStart_of_first fun c first => last c (by rwa [List.head?_reverse] at first)
  rw [trimEnd, ← trimStart, reversed, List.reverse_reverse]

theorem first_trimStart (text : List Char) : ∀ c ∈ (trimStart text).head?, isBlank c = false := by
  intro c first
  have solid := List.head?_dropWhile_not isBlank text
  rw [← trimStart, Option.mem_def.mp first] at solid
  exact Bool.eq_false_iff.mpr (by simpa using solid)

theorem exists_trimStart (text : List Char) : ∃ lead, AllBlank lead ∧ text = lead ++ trimStart text :=
  ⟨text.takeWhile isBlank, fun _ member => List.all_eq_true.mp List.all_takeWhile _ member,
    List.takeWhile_append_dropWhile.symm⟩

theorem trims_trim (text : List Char) : Trims text (trim text) := by
  obtain ⟨lead, leadBlank, front⟩ := exists_trimStart text
  obtain ⟨trail, trailBlank, back⟩ := exists_trimStart (trimStart text).reverse
  have parts : trimStart text = trim text ++ trail.reverse := by
    rw [trim, trimEnd, ← trimStart, ← List.reverse_append, ← back, List.reverse_reverse]
  refine ⟨⟨lead, trail.reverse, leadBlank, ?_, by rw [← parts, ← front]⟩, ?_, ?_⟩
  · exact fun c member => trailBlank c (List.mem_reverse.mp member)
  · intro c first
    apply first_trimStart text c
    rw [parts, List.head?_append, Option.mem_def.mp first]
    rfl
  · intro c last
    apply first_trimStart (trimStart text).reverse c
    rwa [trim, trimEnd, List.getLast?_reverse] at last

theorem trim_eq_iff {text inner : List Char} : trim text = inner ↔ Trims text inner := by
  constructor
  · rintro rfl
    exact trims_trim text
  · rintro ⟨⟨lead, trail, leadBlank, trailBlank, rfl⟩, first, last⟩
    rw [trim, trimStart_append_of_blank leadBlank]
    cases inner with
    | nil =>
        have none : trimStart trail = [] := by
          rw [← List.append_nil trail, trimStart_append_of_blank trailBlank]
          rfl
        rw [List.nil_append, none]
        rfl
    | cons c rest =>
        have front : trimStart (c :: rest ++ trail) = c :: rest ++ trail :=
          trimStart_cons_of_solid (first c rfl) _
        rw [front, trimEnd_append_of_blank _ trailBlank, trimEnd_of_last last]

/-! ## Numerals -/

/-- Decimal digits and the number they denote. -/
structure Digits (text : List Char) (value : Nat) : Prop where
  nonempty : text ≠ []
  digits : ∀ c ∈ text, c.isDigit = true
  value_eq : Nat.ofDigitChars 10 text 0 = value

/-- A number without a sign, or with a plus sign. -/
inductive Unsigned : List Char → Nat → Prop where
  | bare {text : List Char} {value : Nat} (digits : Digits text value) : Unsigned text value
  | plus {text : List Char} {value : Nat} (digits : Digits text value) : Unsigned ('+' :: text) value

/-- A number with either sign or none. -/
inductive Signed : List Char → Int → Prop where
  | unsigned {text : List Char} {value : Nat} (numeral : Unsigned text value) : Signed text value
  | minus {text : List Char} {value : Nat} (digits : Digits text value) :
      Signed ('-' :: text) (-(value : Int))

theorem digitsValue?_eq_some_iff {text : List Char} {value : Nat} :
    digitsValue? text = some value ↔ Digits text value := by
  rw [digitsValue?]
  constructor
  · intro found
    split at found
    · rename_i proper
      simp only [Bool.and_eq_true, Bool.not_eq_true', List.isEmpty_eq_false_iff,
        List.all_eq_true] at proper
      exact ⟨proper.1, proper.2, Option.some.inj found⟩
    · cases found
  · rintro ⟨nonempty, digits, rfl⟩
    rw [if_pos]
    simpa [nonempty] using digits

theorem Digits.ne_cons {text : List Char} {value : Nat} (digits : Digits text value) {c : Char}
    (other : c.isDigit = false) (rest : List Char) : text ≠ c :: rest := by
  rintro rfl
  rw [digits.digits c List.mem_cons_self] at other
  cases other

theorem readBelow_eq_some_iff {bound value : Nat} {text : List Char} :
    readBelow bound text = some value ↔ Unsigned text value ∧ value < bound := by
  have kept (digits : List Char) : (digitsValue? digits).filter (· < bound) = some value ↔
      Digits digits value ∧ value < bound := by
    rw [Option.filter_eq_some_iff, digitsValue?_eq_some_iff, decide_eq_true_eq]
  constructor
  · intro found
    unfold readBelow at found
    split at found
    · obtain ⟨digits, below⟩ := (kept _).mp found
      exact ⟨.plus digits, below⟩
    · obtain ⟨digits, below⟩ := (kept _).mp found
      exact ⟨.bare digits, below⟩
  · rintro ⟨unsigned, below⟩
    cases unsigned with
    | bare digits =>
        rw [readBelow]
        · exact (kept text).mpr ⟨digits, below⟩
        · exact digits.ne_cons (by decide)
    | plus digits => exact (kept _).mpr ⟨digits, below⟩

/-- Numbers that fit into thirty-two bits with a sign. -/
def InRange (value : Int) : Prop :=
  -(UInt32.size / 2 : Nat) ≤ value ∧ value < (UInt32.size / 2 : Nat)

theorem readOperand_eq_some_iff {text : List Char} {value : Int} :
    readOperand text = some value ↔ Signed text value ∧ InRange value := by
  constructor
  · intro found
    unfold readOperand at found
    split at found
    · obtain ⟨_, lifted, rfl⟩ := Option.map_eq_some_iff.mp found
      obtain ⟨size, kept, same⟩ := Option.bind_eq_some_iff.mp lifted
      cases same
      obtain ⟨digits, below⟩ := Option.filter_eq_some_iff.mp kept
      have bound : size ≤ UInt32.size / 2 := of_decide_eq_true below
      have positive : 0 < UInt32.size / 2 := by decide
      refine ⟨.minus (digitsValue?_eq_some_iff.mp digits), ?_⟩
      rw [InRange]
      omega
    · obtain ⟨_, lifted, rfl⟩ := Option.map_eq_some_iff.mp found
      obtain ⟨size, read, same⟩ := Option.bind_eq_some_iff.mp lifted
      cases same
      obtain ⟨numeral, below⟩ := readBelow_eq_some_iff.mp read
      refine ⟨.unsigned numeral, ?_⟩
      rw [InRange]
      omega
  · rintro ⟨signed, low, high⟩
    cases signed with
    | @unsigned _ size numeral =>
        have read := readBelow_eq_some_iff.mpr ⟨numeral, Int.ofNat_lt.mp high⟩
        rw [readOperand]
        · rw [read]
          rfl
        · rintro rest rfl
          cases numeral with
          | bare digits => exact digits.ne_cons (c := '-') (by decide) rest rfl
    | @minus _ size digits =>
        have bound : size ≤ UInt32.size / 2 := by omega
        rw [readOperand, digitsValue?_eq_some_iff.mpr digits,
          Option.filter_some_pos (by simpa using bound)]
        rfl

end Text

namespace Instruction

open Text (AllBlank Spaced Trims Digits Unsigned Signed InRange)

/-! ## The columns of a line -/

/-- A line that starts with an index and an opening bracket, with blanks before both. -/
def Opens (line digits rest : List Char) : Prop :=
  ∃ lead gap, AllBlank lead ∧ digits ≠ [] ∧ (∀ c ∈ digits, c.isDigit = true) ∧ gap ≠ [] ∧
    AllBlank gap ∧ line = lead ++ (digits ++ (gap ++ '[' :: rest))

theorem columns?_of_opens {line digits rest : List Char} (opens : Opens line digits rest) :
    columns? line = some (digits, rest) := by
  obtain ⟨lead, gap, leadBlank, nonempty, isDigit, gapNonempty, gapBlank, rfl⟩ := opens
  obtain ⟨d, more, rfl⟩ := List.exists_cons_of_ne_nil nonempty
  obtain ⟨c, gapRest, rfl⟩ := List.exists_cons_of_ne_nil gapNonempty
  have blank : Text.isBlank c = true := gapBlank c List.mem_cons_self
  have noDigit : ¬ c.isDigit = true := by
    intro digit
    rw [Text.isBlank_of_isDigit digit] at blank
    cases blank
  have start : Text.trimStart (lead ++ (d :: more ++ (c :: gapRest ++ '[' :: rest))) =
      d :: more ++ (c :: gapRest ++ '[' :: rest) := by
    rw [Text.trimStart_append_of_blank leadBlank]
    exact Text.trimStart_cons_of_solid
      (Text.isBlank_of_isDigit (isDigit d List.mem_cons_self)) _
  have behind : c :: gapRest ++ '[' :: rest = c :: (gapRest ++ '[' :: rest) := rfl
  have taken : (d :: more ++ (c :: gapRest ++ '[' :: rest)).takeWhile Char.isDigit = d :: more := by
    rw [List.takeWhile_append_of_pos isDigit, behind, List.takeWhile_cons_of_neg noDigit,
      List.append_nil]
  have dropped : (d :: more ++ (c :: gapRest ++ '[' :: rest)).dropWhile Char.isDigit =
      c :: gapRest ++ '[' :: rest := by
    rw [List.dropWhile_append_of_pos isDigit, behind, List.dropWhile_cons_of_neg noDigit]
  have bracket : Text.trimStart (c :: gapRest ++ '[' :: rest) = '[' :: rest := by
    rw [Text.trimStart_append_of_blank gapBlank]
    exact Text.trimStart_cons_of_solid (by decide) _
  simp only [columns?, start, taken, dropped, bracket]
  simp [blank]

theorem opens_of_columns? {line digits rest : List Char}
    (found : columns? line = some (digits, rest)) : Opens line digits rest := by
  obtain ⟨lead, leadBlank, front⟩ := Text.exists_trimStart line
  have parts : Text.trimStart line = (Text.trimStart line).takeWhile Char.isDigit ++
      (Text.trimStart line).dropWhile Char.isDigit := List.takeWhile_append_dropWhile.symm
  have isDigit : ∀ c ∈ (Text.trimStart line).takeWhile Char.isDigit, c.isDigit = true :=
    fun _ member => List.all_eq_true.mp List.all_takeWhile _ member
  rw [columns?] at found
  generalize (Text.trimStart line).takeWhile Char.isDigit = taken at *
  generalize (Text.trimStart line).dropWhile Char.isDigit = behind at *
  obtain ⟨gap, gapBlank, back⟩ := Text.exists_trimStart behind
  split at found
  · cases found
  · rename_i c more inside nonempty bracket
    split at found
    · rename_i blank
      cases found
      rw [bracket] at back
      refine ⟨lead, gap, leadBlank, nonempty, isDigit, ?_, gapBlank, ?_⟩
      · rintro rfl
        cases back
        exact absurd blank (by decide)
      · rw [← back, ← parts, ← front]
    · cases found
  · cases found

/-- The source line between the brackets, zero for a dash. -/
inductive SourceLine : List Char → Nat → Prop where
  | unknown : SourceLine ['-'] 0
  | known {text : List Char} {value : Nat} (numeral : Unsigned text value)
      (fits : value < UInt32.size) : SourceLine text value

theorem sourceLine?_eq_some_iff {text : List Char} {value : Nat} :
    sourceLine? text = some value ↔ SourceLine text value := by
  rw [sourceLine?]
  split
  · rename_i dash
    subst dash
    constructor
    · intro found
      cases found
      exact .unknown
    · intro source
      cases source with
      | unknown => rfl
      | known numeral fits =>
          cases numeral with
          | bare digits => exact absurd rfl (digits.ne_cons (by decide) _)
  · rename_i other
    constructor
    · intro found
      obtain ⟨numeral, fits⟩ := Text.readBelow_eq_some_iff.mp found
      exact .known numeral fits
    · intro source
      cases source with
      | unknown => exact absurd rfl other
      | known numeral fits => exact Text.readBelow_eq_some_iff.mpr ⟨numeral, fits⟩

/-- A body without semicolons and the comment behind the first one. Blanks around a comment do not
count, and a blank comment is none. -/
inductive Commented : List Char → List Char → Option String → Prop where
  | plain {body : List Char} (free : ';' ∉ body) : Commented body body none
  | blank {body text : List Char} (free : ';' ∉ body) (trims : Trims text []) :
      Commented (body ++ ';' :: text) body none
  | comment {body text inner : List Char} (free : ';' ∉ body) (trims : Trims text inner)
      (nonempty : inner ≠ []) : Commented (body ++ ';' :: text) body (some (String.ofList inner))

theorem splitComment_eq_iff {text body : List Char} {comment : Option String} :
    splitComment text = (body, comment) ↔ Commented text body comment := by
  rw [splitComment]
  constructor
  · intro found
    cases cut : Text.cut? ';' text with
    | none =>
        rw [cut] at found
        cases found
        exact .plain (Text.cut?_eq_none_iff.mp cut)
    | some pair =>
        obtain ⟨before, behind⟩ := pair
        rw [cut] at found
        obtain ⟨rfl, free⟩ := Text.cut?_eq_some cut
        obtain ⟨rfl, rfl⟩ := Prod.mk.inj found
        have trims := Text.trims_trim behind
        split
        · rename_i empty
          rw [List.isEmpty_iff.mp empty] at trims
          exact .blank free trims
        · rename_i nonempty
          exact .comment free trims fun none => nonempty (List.isEmpty_iff.mpr none)
  · intro commented
    cases commented with
    | plain free => rw [Text.cut?_eq_none_iff.mpr free]
    | blank free trims =>
        rw [Text.cut?_append free]
        simp [Text.trim_eq_iff.mpr trims]
    | comment free trims nonempty =>
        rw [Text.cut?_append free]
        simp [Text.trim_eq_iff.mpr trims, nonempty]

/-- A line with sound columns: an index and a source line in range, the body behind them and the
comment at the end. -/
def Frame (line : List Char) (index source : Nat) (body : List Char) (comment : Option String) :
    Prop :=
  ∃ digits inside behind, Opens line digits (inside ++ ']' :: behind) ∧ Digits digits index ∧
    index < UInt32.size ∧ ']' ∉ inside ∧ SourceLine inside source ∧ Commented behind body comment

theorem readIndex_eq_some_iff {digits : List Char} {value : Nat}
    (isDigit : ∀ c ∈ digits, c.isDigit = true) :
    Text.readIndex digits = some value ↔ Digits digits value ∧ value < UInt32.size := by
  rw [Text.readIndex, Text.readBelow_eq_some_iff]
  constructor
  · rintro ⟨unsigned, fits⟩
    cases unsigned with
    | bare digits => exact ⟨digits, fits⟩
    | plus digits => exact absurd (isDigit '+' List.mem_cons_self) (by decide)
  · rintro ⟨digits, fits⟩
    exact ⟨.bare digits, fits⟩

/-- Behind sound columns everything depends on the body. -/
theorem Frame.ofLine_eq {line body : List Char} {index source : Nat} {comment : Option String}
    (frame : Frame line index source body comment) :
    ofLine line = (ofBody index source body comment).map some := by
  obtain ⟨digits, inside, behind, opens, isIndex, fits, closed, isSource, commented⟩ := frame
  have read := (readIndex_eq_some_iff isIndex.digits).mpr ⟨isIndex, fits⟩
  rw [ofLine, columns?_of_opens opens]
  simp only [ofColumns, read, Text.cut?_append closed, sourceLine?_eq_some_iff.mpr isSource,
    splitComment_eq_iff.mpr commented]

/-- Without sound columns a line is malformed, if it starts as an instruction line at all. -/
theorem ofLine_of_not_frame {line digits rest : List Char} (opens : Opens line digits rest)
    (unsound : ∀ index source body comment, ¬ Frame line index source body comment) :
    ∃ fault, ofLine line = .error fault ∧ ∀ name, fault ≠ .unknownOpcode name := by
  have isDigit : ∀ c ∈ digits, c.isDigit = true := by
    obtain ⟨_, _, _, _, isDigit, _⟩ := opens
    exact isDigit
  rw [ofLine, columns?_of_opens opens]
  simp only [ofColumns]
  cases read : Text.readIndex digits with
  | none => exact ⟨.indexTooLarge, rfl, by simp⟩
  | some index =>
      obtain ⟨isIndex, fits⟩ := (readIndex_eq_some_iff isDigit).mp read
      cases cut : Text.cut? ']' rest with
      | none => exact ⟨.unclosedBracket, rfl, by simp⟩
      | some pair =>
          obtain ⟨inside, behind⟩ := pair
          obtain ⟨rfl, closed⟩ := Text.cut?_eq_some cut
          cases isSource : sourceLine? inside with
          | none => exact ⟨.badSourceLine, by simp only [isSource]; rfl, by simp⟩
          | some source =>
              refine absurd ?_ (unsound index source (splitComment behind).1 (splitComment behind).2)
              exact ⟨digits, inside, behind, opens, isIndex, fits, closed,
                sourceLine?_eq_some_iff.mp isSource, splitComment_eq_iff.mp rfl⟩

/-! ## The body of a line -/

/-- A word that spells a number in range. -/
def IsOperand (word : List Char) (value : Int) : Prop := Signed word value ∧ InRange value

theorem mapM_readOperand_eq_some_iff {given : List (List Char)} {values : List Int} :
    given.mapM Text.readOperand = some values ↔ List.Forall₂ IsOperand given values := by
  induction given generalizing values with
  | nil =>
      simp only [List.mapM_nil, List.forall₂_nil_left_iff]
      exact ⟨fun found => (Option.some.inj found).symm, fun empty => by rw [empty]; rfl⟩
  | cons word rest ih =>
      rw [List.mapM_cons, List.forall₂_cons_left_iff]
      simp only [Option.bind_eq_bind, Option.bind_eq_some_iff, ih, Text.readOperand_eq_some_iff]
      constructor
      · rintro ⟨value, first, others, later, same⟩
        exact ⟨value, others, first, later, (Option.some.inj same).symm⟩
      · rintro ⟨value, others, first, later, rfl⟩
        exact ⟨value, first, others, later, rfl⟩

/-- A mnemonic and one to three operands, with blanks between them. -/
structure Body (body : List Char) (instruction : Instruction) : Prop where
  fields : ∃ operands, Spaced (instruction.opcode.name.toList :: operands) body ∧
    List.Forall₂ IsOperand operands instruction.operands
  /-- There is no third operand without a second one. -/
  packed : instruction.b = none → instruction.c = none

theorem Body.ofBody_eq {body : List Char} {instruction : Instruction}
    (spells : Body body instruction) :
    ofBody instruction.index instruction.line body instruction.comment = .ok instruction := by
  obtain ⟨⟨given, spaced, each⟩, packed⟩ := spells
  have read := mapM_readOperand_eq_some_iff.mpr each
  obtain ⟨index, line, opcode, a, b, c, comment⟩ := instruction
  simp only [ofBody, spaced.words_eq, String.ofList_toList, Opcode.ofName?_name, read]
  cases b with
  | none =>
      cases packed rfl
      rfl
  | some b => cases c <;> rfl

theorem body_of_ofBody {body : List Char} {index line : Nat} {comment : Option String}
    {instruction : Instruction} (read : ofBody index line body comment = .ok instruction) :
    instruction.index = index ∧ instruction.line = line ∧ instruction.comment = comment ∧
      Body body instruction := by
  rw [ofBody] at read
  split at read
  · cases read
  · rename_i mnemonic given spaced
    split at read
    · cases read
    · rename_i opcode known
      have name : mnemonic = opcode.name.toList := by
        rw [Opcode.name_of_ofName? known, String.toList_ofList]
      rw [Text.words_eq_iff, name] at spaced
      split at read
      · cases read
      · rename_i a each
        cases read
        exact ⟨rfl, rfl, rfl, ⟨given, spaced, mapM_readOperand_eq_some_iff.mp each⟩, fun _ => rfl⟩
      · rename_i a b each
        cases read
        exact ⟨rfl, rfl, rfl, ⟨given, spaced, mapM_readOperand_eq_some_iff.mp each⟩, fun _ => rfl⟩
      · rename_i a b c each
        cases read
        refine ⟨rfl, rfl, rfl, ⟨given, spaced, mapM_readOperand_eq_some_iff.mp each⟩, ?_⟩
        intro none
        cases none
      · cases read

theorem ofBody_eq_unknownOpcode_iff {body : List Char} {index line : Nat} {comment : Option String}
    {name : String} : ofBody index line body comment = .error (.unknownOpcode name) ↔
      (∃ operands, Spaced (name.toList :: operands) body) ∧ ∀ opcode : Opcode, opcode.name ≠ name := by
  constructor
  · intro read
    rw [ofBody] at read
    split at read
    · cases read
    · rename_i mnemonic given spaced
      split at read
      · rename_i unknown
        cases read
        refine ⟨⟨given, ?_⟩, ?_⟩
        · rw [String.toList_ofList]
          exact Text.words_eq_iff.mp spaced
        · intro opcode same
          rw [← same, Opcode.ofName?_name] at unknown
          cases unknown
      · split at read <;> cases read
  · rintro ⟨⟨given, spaced⟩, unknown⟩
    have none : Opcode.ofName? name = none := by
      cases found : Opcode.ofName? name with
      | none => rfl
      | some opcode => exact absurd (Opcode.name_of_ofName? found) (unknown opcode)
    simp only [ofBody, spaced.words_eq, String.ofList_toList, none]

/-! ## Lines -/

/-- The line of an instruction: sound columns, a mnemonic and its operands. -/
def Spells (line : List Char) (instruction : Instruction) : Prop :=
  ∃ body, Frame line instruction.index instruction.line body instruction.comment ∧
    Body body instruction

/-- Sound columns, and then a first word that is no mnemonic. -/
def Misnames (line : List Char) (name : String) : Prop :=
  (∃ index source body comment operands, Frame line index source body comment ∧
    Spaced (name.toList :: operands) body) ∧ ∀ opcode : Opcode, opcode.name ≠ name

theorem ofLine_eq_none_iff {line : List Char} :
    ofLine line = .ok none ↔ ¬ ∃ digits rest, Opens line digits rest := by
  constructor
  · rintro none ⟨digits, rest, opens⟩
    rw [ofLine, columns?_of_opens opens] at none
    dsimp only at none
    cases read : ofColumns digits rest with
    | error fault =>
        rw [read] at none
        cases none
    | ok instruction =>
        rw [read] at none
        cases none
  · intro closed
    cases found : columns? line with
    | none => rw [ofLine, found]
    | some pair => exact absurd ⟨pair.1, pair.2, opens_of_columns? found⟩ closed

/-- A line is read as an instruction or refused for its mnemonic only behind sound columns. -/
theorem exists_frame {line : List Char} {answer : Except LineFault (Option Instruction)}
    (read : ofLine line = answer) (something : answer ≠ .ok none)
    (proper : ∀ fault, answer = .error fault → ∃ name, fault = .unknownOpcode name) :
    ∃ index source body comment, Frame line index source body comment := by
  by_contra unsound
  simp only [not_exists] at unsound
  have opens : ∃ digits rest, Opens line digits rest := by
    by_contra closed
    exact something (read.symm.trans (ofLine_eq_none_iff.mpr closed))
  obtain ⟨digits, rest, opens⟩ := opens
  obtain ⟨fault, refused, other⟩ := ofLine_of_not_frame opens unsound
  obtain ⟨name, same⟩ := proper fault (read.symm.trans refused)
  exact other name same

theorem ofLine_eq_some_iff {line : List Char} {instruction : Instruction} :
    ofLine line = .ok (some instruction) ↔ Spells line instruction := by
  constructor
  · intro read
    obtain ⟨index, source, body, comment, frame⟩ := exists_frame read (by simp) (by simp)
    rw [frame.ofLine_eq] at read
    cases inner : ofBody index source body comment with
    | error fault =>
        rw [inner] at read
        cases read
    | ok found =>
        rw [inner] at read
        cases read
        obtain ⟨rfl, rfl, rfl, spells⟩ := body_of_ofBody inner
        exact ⟨body, frame, spells⟩
  · rintro ⟨body, frame, spells⟩
    rw [frame.ofLine_eq, spells.ofBody_eq]
    rfl

theorem ofLine_eq_unknownOpcode_iff {line : List Char} {name : String} :
    ofLine line = .error (.unknownOpcode name) ↔ Misnames line name := by
  constructor
  · intro read
    obtain ⟨index, source, body, comment, frame⟩ := exists_frame read (by simp) (by
      intro fault same
      cases same
      exact ⟨name, rfl⟩)
    rw [frame.ofLine_eq] at read
    cases inner : ofBody index source body comment with
    | ok found =>
        rw [inner] at read
        cases read
    | error fault =>
        rw [inner] at read
        cases read
        obtain ⟨⟨operands, spaced⟩, unknown⟩ := ofBody_eq_unknownOpcode_iff.mp inner
        exact ⟨⟨index, source, body, comment, operands, frame, spaced⟩, unknown⟩
  · rintro ⟨⟨index, source, body, comment, operands, frame, spaced⟩, unknown⟩
    rw [frame.ofLine_eq, ofBody_eq_unknownOpcode_iff.mpr ⟨⟨operands, spaced⟩, unknown⟩]
    rfl

/-- What is refused for another reason than its mnemonic is all that is left. -/
theorem ofLine_malformed_iff {line : List Char} :
    (∃ fault, ofLine line = .error fault ∧ ∀ name, fault ≠ .unknownOpcode name) ↔
      (∃ digits rest, Opens line digits rest) ∧ (¬ ∃ instruction, Spells line instruction) ∧
        ¬ ∃ name, Misnames line name := by
  simp only [← ofLine_eq_some_iff, ← ofLine_eq_unknownOpcode_iff]
  constructor
  · rintro ⟨fault, refused, other⟩
    refine ⟨?_, ?_, ?_⟩
    · by_contra closed
      rw [← ofLine_eq_none_iff, refused] at closed
      cases closed
    · rintro ⟨instruction, read⟩
      rw [refused] at read
      cases read
    · rintro ⟨name, read⟩
      rw [refused] at read
      cases read
      exact other name rfl
  · rintro ⟨opens, unread, named⟩
    cases read : ofLine line with
    | ok found =>
        cases found with
        | none => exact absurd opens (ofLine_eq_none_iff.mp read)
        | some instruction => exact absurd ⟨instruction, read⟩ unread
    | error fault =>
        refine ⟨fault, rfl, ?_⟩
        rintro name rfl
        exact named ⟨name, read⟩

end Instruction

/-- A fault in the text of a line is reported with the number of the line. -/
theorem Listing.Reader.code_eq_instruction_fault_iff (dialect : Dialect) (reader : Listing.Reader)
    (line : List Char) (number : Nat) (fault : Fault) (inner : LineFault) :
    (reader.code dialect line number = .error fault ∧ fault.cause = .instruction inner) ↔
      fault = ⟨number, .instruction inner⟩ ∧ Instruction.ofLine line = .error inner := by
  rw [Reader.code]
  cases read : Instruction.ofLine line with
  | error found =>
      constructor
      · rintro ⟨refused, same⟩
        cases refused
        cases same
        exact ⟨rfl, rfl⟩
      · rintro ⟨rfl, same⟩
        cases same
        exact ⟨rfl, rfl⟩
  | ok found =>
      -- The other faults of a line are about its place and its dialect.
      constructor
      · rintro ⟨refused, same⟩
        split at refused
        · rename_i none
          cases none
        · cases refused
        · split at refused
          · split at refused
            · cases refused
              cases same
            · cases refused
          · cases refused
            cases same
      · rintro ⟨_, read⟩
        cases read

namespace Instruction

/-- Reading a line accepts exactly the grammar. A line that starts without an index and a bracket
holds nothing, one that spells an instruction holds this one, one with sound columns and a first word
that is no mnemonic is refused for that word, and all other lines are malformed. A fault is reported
at the number that the line is read with. -/
theorem ofLine_accepts_grammar (line : List Char) :
    (ofLine line = .ok none ↔ ¬ ∃ digits rest, Opens line digits rest) ∧
      (∀ instruction, ofLine line = .ok (some instruction) ↔ Spells line instruction) ∧
      (∀ name, ofLine line = .error (.unknownOpcode name) ↔ Misnames line name) ∧
      ((∃ fault, ofLine line = .error fault ∧ ∀ name, fault ≠ .unknownOpcode name) ↔
        (∃ digits rest, Opens line digits rest) ∧ (¬ ∃ instruction, Spells line instruction) ∧
          ¬ ∃ name, Misnames line name) ∧
      ∀ (dialect : Dialect) (reader : Listing.Reader) (number : Nat) (fault : Fault)
        (inner : LineFault),
        (reader.code dialect line number = .error fault ∧ fault.cause = .instruction inner) ↔
          fault = ⟨number, .instruction inner⟩ ∧ ofLine line = .error inner :=
  ⟨ofLine_eq_none_iff, fun _ => ofLine_eq_some_iff, fun _ => ofLine_eq_unknownOpcode_iff,
    ofLine_malformed_iff, fun dialect reader number fault inner =>
      Listing.Reader.code_eq_instruction_fault_iff dialect reader line number fault inner⟩

end Instruction

end GlobalAudit
