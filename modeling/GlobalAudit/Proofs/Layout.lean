import GlobalAudit.Bytecode.Listing
import GlobalAudit.Proofs.RegisterRecovery
import GlobalAudit.Proofs.Text

/-!
# The layout of listings

The text that the compiler prints for functions, and what reading makes of each of its lines. The
kinds of lines overlap, since instructions and the entries of all sections start with a number, and
comments, constants and names are free text. Reading back whole listings rests on the lines alone.
-/
namespace GlobalAudit

/-! ## Instruction lines -/

namespace Instruction

def operands (instruction : Instruction) : List Int :=
  instruction.a :: (instruction.b.toList ++ instruction.c.toList)

/-- The source line between the brackets, a dash where it is not known. -/
def sourceColumn (instruction : Instruction) : String :=
  if instruction.line = 0 then "-" else instruction.line.repr

/-- The mnemonic in its column and the operands. -/
def body (instruction : Instruction) : String :=
  "\t" ++ Text.padEnd 9 instruction.opcode.name ++ "\t" ++
    " ".intercalate (instruction.operands.map Int.repr)

def commentColumn (instruction : Instruction) : String :=
  match instruction.comment with
  | none => ""
  | some comment => "\t; " ++ comment

/-- The line of an instruction. -/
def text (instruction : Instruction) : String :=
  "\t" ++ instruction.index.repr ++ "\t[" ++ instruction.sourceColumn ++ "]" ++ instruction.body ++
    instruction.commentColumn

/-- An instruction that fits on a line of a listing of the dialect. -/
structure Printable (dialect : Dialect) (instruction : Instruction) : Prop where
  known : (dialect.role? instruction.opcode).isSome
  index_lt : instruction.index < UInt32.size
  line_lt : instruction.line < UInt32.size
  operands_low : ∀ value ∈ instruction.operands, -(UInt32.size / 2 : Nat) ≤ value
  operands_high : ∀ value ∈ instruction.operands, value < (UInt32.size / 2 : Nat)
  /-- There is no third operand without a second one. -/
  packed : instruction.b = none → instruction.c = none
  comment_nonempty : ∀ comment ∈ instruction.comment, comment.toList ≠ []
  comment_trimmed : ∀ comment ∈ instruction.comment, Text.trim comment.toList = comment.toList
  comment_single : ∀ comment ∈ instruction.comment, '\n' ∉ comment.toList

instance (dialect : Dialect) (instruction : Instruction) :
    Decidable (instruction.Printable dialect) :=
  decidable_of_iff ((dialect.role? instruction.opcode).isSome ∧ instruction.index < UInt32.size ∧
      instruction.line < UInt32.size ∧
      (∀ value ∈ instruction.operands, -(UInt32.size / 2 : Nat) ≤ value) ∧
      (∀ value ∈ instruction.operands, value < (UInt32.size / 2 : Nat)) ∧
      (instruction.b = none → instruction.c = none) ∧
      (∀ comment ∈ instruction.comment, comment.toList ≠ []) ∧
      (∀ comment ∈ instruction.comment, Text.trim comment.toList = comment.toList) ∧
      ∀ comment ∈ instruction.comment, '\n' ∉ comment.toList)
    ⟨fun ⟨known, index, line, low, high, packed, nonempty, trimmed, single⟩ =>
      ⟨known, index, line, low, high, packed, nonempty, trimmed, single⟩,
    fun ⟨known, index, line, low, high, packed, nonempty, trimmed, single⟩ =>
      ⟨known, index, line, low, high, packed, nonempty, trimmed, single⟩⟩

theorem isWord_name (opcode : Opcode) : Text.IsWord opcode.name.toList := by
  cases opcode <;> decide

theorem semicolon_not_mem_name (opcode : Opcode) : ';' ∉ opcode.name.toList := by
  cases opcode <;> decide

theorem toList_body (instruction : Instruction) : instruction.body.toList =
    '\t' :: ((Text.padEnd 9 instruction.opcode.name).toList ++
      '\t' :: List.intercalate [' ']
        (instruction.operands.map fun value => value.repr.toList)) := by
  simp [body, Function.comp_def]

theorem toList_padEnd (width : Nat) (text : String) :
    (Text.padEnd width text).toList = text.toList ++ List.replicate (width - text.length) ' ' := by
  simp [Text.padEnd]

theorem words_padEnd (width : Nat) {text : String} (word : Text.IsWord text.toList) :
    Text.words (Text.padEnd width text).toList = [text.toList] := by
  rw [toList_padEnd, Text.words_append_of_blank, word.words_eq]
  intro c member
  rw [List.eq_of_mem_replicate member]
  rfl

theorem isWord_operands (instruction : Instruction) :
    ∀ word ∈ instruction.operands.map fun value => value.repr.toList, Text.IsWord word := by
  intro word member
  rcases List.mem_map.mp member with ⟨value, _, rfl⟩
  exact Text.isWord_repr value

theorem words_body (instruction : Instruction) : Text.words instruction.body.toList =
    instruction.opcode.name.toList :: instruction.operands.map fun value => value.repr.toList := by
  rw [toList_body, Text.words_cons_of_blank rfl, Text.words_append_cons rfl,
    words_padEnd 9 (isWord_name _), Text.words_intercalate (isWord_operands instruction)]
  rfl

theorem not_mem_body {c : Char} (noTab : c ≠ '\t') (noSpace : c ≠ ' ') (noDigit : c.isDigit = false)
    (noSign : c ≠ '-') {instruction : Instruction} (other : c ∉ instruction.opcode.name.toList) :
    c ∉ instruction.body.toList := by
  have operands : c ∉ List.intercalate [' ']
      (instruction.operands.map fun value => value.repr.toList) := by
    apply Text.not_mem_intercalate noSpace
    intro word member
    rcases List.mem_map.mp member with ⟨value, _, rfl⟩
    exact Text.not_mem_repr noDigit noSign value
  rw [toList_body, toList_padEnd]
  simp [noTab, noSpace, other, operands]

theorem semicolon_not_mem_body (instruction : Instruction) : ';' ∉ instruction.body.toList :=
  not_mem_body (by decide) (by decide) rfl (by decide) (semicolon_not_mem_name _)

variable {dialect : Dialect} {instruction : Instruction}

theorem mapM_readOperand {values : List Int}
    (low : ∀ value ∈ values, -(UInt32.size / 2 : Nat) ≤ value)
    (high : ∀ value ∈ values, value < (UInt32.size / 2 : Nat)) :
    (values.map fun value => value.repr.toList).mapM Text.readOperand = some values := by
  induction values with
  | nil => rfl
  | cons value rest ih =>
      rcases List.forall_mem_cons.mp low with ⟨lowFirst, lowRest⟩
      rcases List.forall_mem_cons.mp high with ⟨highFirst, highRest⟩
      rw [List.map_cons, List.mapM_cons, Text.readOperand_repr lowFirst highFirst,
        ih lowRest highRest]
      rfl

/-- The body is read with blanks behind it as well, which a comment leaves there. -/
theorem Printable.ofBody_eq (printable : instruction.Printable dialect) {gap : List Char}
    (blank : ∀ c ∈ gap, Text.isBlank c = true) :
    ofBody instruction.index instruction.line (instruction.body.toList ++ gap)
      instruction.comment = .ok instruction := by
  unfold ofBody
  rw [Text.words_append_of_blank _ blank, words_body]
  simp only [String.ofList_toList, Opcode.ofName?_name,
    mapM_readOperand printable.operands_low printable.operands_high]
  have packed := printable.packed
  rcases instruction with ⟨index, line, opcode, a, _ | b, _ | c, comment⟩
  · rfl
  · cases packed rfl
  · rfl
  · rfl

theorem Printable.splitComment_eq (printable : instruction.Printable dialect) :
    ∃ gap, (∀ c ∈ gap, Text.isBlank c = true) ∧
      splitComment (instruction.body.toList ++ instruction.commentColumn.toList) =
        (instruction.body.toList ++ gap, instruction.comment) := by
  -- The comment may hold semicolons of its own, so the first one has to be the one before it.
  have absent := semicolon_not_mem_body instruction
  unfold splitComment commentColumn
  cases written : instruction.comment with
  | none =>
      refine ⟨[], by simp, ?_⟩
      rw [show "".toList = [] from rfl, List.append_nil, Text.cut?_eq_none_iff.mpr absent]
  | some comment =>
      refine ⟨['\t'], by simp [Text.isBlank], ?_⟩
      have form : instruction.body.toList ++ ("\t; " ++ comment).toList =
          (instruction.body.toList ++ ['\t']) ++ ';' :: ' ' :: comment.toList := by simp
      have trimmed : Text.trim (' ' :: comment.toList) = comment.toList := by
        rw [Text.trim_cons_of_blank rfl]
        exact printable.comment_trimmed comment written
      have nonempty := printable.comment_nonempty comment written
      rw [form, Text.cut?_append (by simp [absent])]
      simp [trimmed, nonempty]

theorem Printable.sourceLine?_eq (printable : instruction.Printable dialect) :
    sourceLine? instruction.sourceColumn.toList = some instruction.line := by
  unfold sourceLine? sourceColumn
  by_cases unknown : instruction.line = 0
  · rw [if_pos unknown, unknown]
    rfl
  · have digits : instruction.line.repr.toList ≠ ['-'] := by
      rw [Nat.toList_repr]
      exact Text.toDigits_ne_cons rfl _ _
    rw [if_neg unknown, if_neg digits, Nat.toList_repr]
    exact Text.readBelow_toDigits printable.line_lt

theorem not_mem_sourceColumn {c : Char} (noDigit : c.isDigit = false) (noSign : c ≠ '-')
    (instruction : Instruction) : c ∉ instruction.sourceColumn.toList := by
  unfold sourceColumn
  split
  · simpa using noSign
  · rw [Nat.toList_repr]
    exact Text.not_mem_toDigits noDigit _

theorem trimStart_toDigits_append (value : Nat) (rest : List Char) :
    Text.trimStart (Nat.toDigits 10 value ++ rest) = Nat.toDigits 10 value ++ rest := by
  have solid := (Text.isWord_toDigits value).solid
  cases chars : Nat.toDigits 10 value with
  | nil => exact absurd chars Nat.toDigits_ne_nil
  | cons first others =>
      exact Text.trimStart_cons_of_solid (solid first (chars ▸ List.mem_cons_self)) _

theorem columns?_cons_of_blank {c : Char} (blank : Text.isBlank c = true) (line : List Char) :
    columns? (c :: line) = columns? line := by
  unfold columns?
  rw [Text.trimStart_cons_of_blank blank]

/-- Behind a number, the columns are there exactly if a blank and then a bracket follow. -/
theorem columns?_toDigits (value : Nat) {c : Char} (noDigit : c.isDigit = false)
    (rest : List Char) : columns? (Nat.toDigits 10 value ++ c :: rest) =
      match Text.trimStart (c :: rest) with
      | '[' :: inside => if Text.isBlank c then some (Nat.toDigits 10 value, inside) else none
      | _ => none := by
  have digits : ∀ c ∈ Nat.toDigits 10 value, c.isDigit = true :=
    fun _ member => Text.isDigit_of_mem_toDigits member
  have other : ¬ c.isDigit = true := Bool.eq_false_iff.mp noDigit
  have taken : (Nat.toDigits 10 value ++ c :: rest).takeWhile Char.isDigit =
      Nat.toDigits 10 value := by
    rw [List.takeWhile_append_of_pos digits, List.takeWhile_cons_of_neg other, List.append_nil]
  have dropped : (Nat.toDigits 10 value ++ c :: rest).dropWhile Char.isDigit = c :: rest := by
    rw [List.dropWhile_append_of_pos digits, List.dropWhile_cons_of_neg other]
  unfold columns?
  simp only [trimStart_toDigits_append, taken, dropped]
  cases chars : Nat.toDigits 10 value with
  | nil => exact absurd chars Nat.toDigits_ne_nil
  | cons first others =>
      split
      · rename_i empty
        cases empty
      · rename_i same bracket _
        cases same
        rw [bracket]
        rfl
      · rename_i noBracket
        split
        · rename_i inside bracket
          cases noBracket c rest inside rfl bracket
        · rfl

theorem toList_text (instruction : Instruction) : instruction.text.toList =
    '\t' :: (Nat.toDigits 10 instruction.index ++ '\t' :: '[' ::
      (instruction.sourceColumn.toList ++ ']' ::
        (instruction.body.toList ++ instruction.commentColumn.toList))) := by
  simp [text, Nat.toList_repr]

/-- The line of an instruction does not end in a carriage return. -/
theorem Printable.dropReturn_text (printable : instruction.Printable dialect) :
    Text.dropReturn instruction.text.toList = instruction.text.toList := by
  cases written : instruction.comment with
  | none =>
      have words := isWord_operands instruction
      have form : instruction.text.toList = ("\t" ++ instruction.index.repr ++ "\t[" ++
          instruction.sourceColumn ++ "]\t" ++ Text.padEnd 9 instruction.opcode.name ++
            "\t").toList ++
          List.intercalate [' '] (instruction.operands.map fun value => value.repr.toList) := by
        simp [text, toList_body, commentColumn, written]
      rw [form, Text.dropReturn_append _ (Text.intercalate_ne_nil words (by simp [operands])),
        Text.dropReturn_intercalate words]
  | some comment =>
      have form : instruction.text.toList = ("\t" ++ instruction.index.repr ++ "\t[" ++
          instruction.sourceColumn ++ "]" ++ instruction.body ++ "\t; ").toList ++
          comment.toList := by
        simp [text, commentColumn, written]
      rw [form, Text.dropReturn_append _ (printable.comment_nonempty comment written),
        Text.dropReturn_of_trim_eq (printable.comment_trimmed comment written)]

theorem Printable.ofColumns_eq (printable : instruction.Printable dialect) :
    ofColumns (Nat.toDigits 10 instruction.index) (instruction.sourceColumn.toList ++ ']' ::
      (instruction.body.toList ++ instruction.commentColumn.toList)) = .ok instruction := by
  have index : Text.readIndex (Nat.toDigits 10 instruction.index) = some instruction.index :=
    Text.readBelow_toDigits printable.index_lt
  have source := Text.cut?_append (not_mem_sourceColumn (c := ']') rfl (by decide) instruction)
    (instruction.body.toList ++ instruction.commentColumn.toList)
  rcases printable.splitComment_eq with ⟨gap, blank, split⟩
  unfold ofColumns
  simp only [index, source, printable.sourceLine?_eq, split]
  exact printable.ofBody_eq blank

/-- The line of an instruction holds this instruction. -/
theorem Printable.ofLine_text (printable : instruction.Printable dialect) :
    ofLine (Text.dropReturn instruction.text.toList) = .ok (some instruction) := by
  have columns : columns? instruction.text.toList = some (Nat.toDigits 10 instruction.index,
      instruction.sourceColumn.toList ++ ']' ::
        (instruction.body.toList ++ instruction.commentColumn.toList)) := by
    rw [toList_text, columns?_cons_of_blank rfl, columns?_toDigits _ rfl,
      Text.trimStart_cons_of_blank rfl, Text.trimStart_cons_of_solid rfl]
    rfl
  unfold ofLine
  rw [printable.dropReturn_text, columns]
  simp only [printable.ofColumns_eq]
  rfl

theorem Printable.single (printable : instruction.Printable dialect) :
    '\n' ∉ instruction.text.toList := by
  have index := Text.not_mem_toDigits (c := '\n') rfl instruction.index
  have source := not_mem_sourceColumn (c := '\n') rfl (by decide) instruction
  have body := not_mem_body (c := '\n') (by decide) (by decide) rfl (by decide)
    ((isWord_name instruction.opcode).not_mem rfl)
  have comment : '\n' ∉ instruction.commentColumn.toList := by
    unfold commentColumn
    split
    · exact List.not_mem_nil
    · rename_i comment written
      have single := printable.comment_single comment written
      simp [single]
  rw [toList_text]
  simp [index, source, body, comment]

end Instruction

/-! ## Entries of the sections -/

/-- Words with single spaces between them, as in the names of locals. -/
def Text.SingleSpaced (text : String) : Prop :=
  ∃ words : List (List Char), words ≠ [] ∧ (∀ word ∈ words, IsWord word) ∧
    text.toList = List.intercalate [' '] words

theorem Text.IsWord.singleSpaced {text : String} (word : IsWord text.toList) :
    SingleSpaced text :=
  ⟨[text.toList], List.cons_ne_nil _ _, by simpa using word, by simp⟩

theorem Text.isWord_of_isIdentifier {name : String}
    (identifier : Catalog.isIdentifier name = true) : IsWord name.toList := by
  rcases Catalog.isPlain_of_isIdentifier identifier with ⟨⟨first, rest, chars⟩, plain⟩
  exact ⟨by simp [chars], fun c member => (plain c member).1⟩

namespace LocalDeclaration

/-- The entry of a local. -/
def entry (declaration : LocalDeclaration) : String :=
  declaration.index.repr ++ "\t" ++ declaration.name ++ "\t" ++ declaration.start.repr ++ "\t" ++
    declaration.stop.repr

structure Printable (declaration : LocalDeclaration) : Prop where
  index_lt : declaration.index < UInt32.size
  name_spaced : Text.SingleSpaced declaration.name
  start_lt : declaration.start < UInt32.size
  stop_lt : declaration.stop < UInt32.size

theorem toList_entry (declaration : LocalDeclaration) : declaration.entry.toList =
    Nat.toDigits 10 declaration.index ++ '\t' :: (declaration.name.toList ++ '\t' ::
      (Nat.toDigits 10 declaration.start ++ '\t' :: Nat.toDigits 10 declaration.stop)) := by
  simp [entry, Nat.toList_repr]

variable {declaration : LocalDeclaration}

theorem Printable.localEntry?_eq (printable : declaration.Printable) :
    Registers.localEntry? (Text.trim declaration.entry.toList) =
      some (declaration.index, declaration.name, declaration.start, declaration.stop) := by
  rcases printable.name_spaced with ⟨words, nonempty, each, name⟩
  have read : Text.words (Text.trim declaration.entry.toList) =
      Nat.toDigits 10 declaration.index ::
        (words ++ [Nat.toDigits 10 declaration.start, Nat.toDigits 10 declaration.stop]) := by
    rw [Text.words_trim, toList_entry, Text.words_append_cons rfl, Text.words_append_cons rfl,
      Text.words_append_cons rfl, (Text.isWord_toDigits _).words_eq, name,
      Text.words_intercalate each, (Text.isWord_toDigits _).words_eq,
      (Text.isWord_toDigits _).words_eq]
    rfl
  have joined : " ".intercalate (words.map String.ofList) = declaration.name := by
    apply String.toList_inj.mp
    simp [name]
  have index := Text.readBelow_toDigits printable.index_lt
  have start := Text.readBelow_toDigits printable.start_lt
  have stop := Text.readBelow_toDigits printable.stop_lt
  unfold Registers.localEntry?
  rw [read]
  simp [Text.readIndex, index, start, stop, nonempty, joined]

theorem Printable.single (printable : declaration.Printable) :
    '\n' ∉ declaration.entry.toList := by
  rcases printable.name_spaced with ⟨words, _, each, name⟩
  have digits := Text.not_mem_toDigits (c := '\n') rfl
  have inside : '\n' ∉ declaration.name.toList := by
    rw [name]
    exact Text.not_mem_intercalate (by decide) fun word member => (each word member).not_mem rfl
  rw [toList_entry]
  simp [digits, inside]

end LocalDeclaration

/-- An upvalue as a listing gives it. Where it comes from is only printed in Lua 5.2: whether it is
a local of the function around, and its number there. -/
structure UpvalueDeclaration where
  slot : Nat
  name : String
  origin : Option (Nat × Nat)
  deriving DecidableEq, Repr

namespace UpvalueDeclaration

def originColumns (declaration : UpvalueDeclaration) : String :=
  match declaration.origin with
  | none => ""
  | some (inStack, index) => "\t" ++ inStack.repr ++ "\t" ++ index.repr

/-- The entry of an upvalue. -/
def entry (declaration : UpvalueDeclaration) : String :=
  declaration.slot.repr ++ "\t" ++ declaration.name ++ declaration.originColumns

structure Printable (declaration : UpvalueDeclaration) : Prop where
  slot_lt : declaration.slot < UInt32.size
  name_word : Text.IsWord declaration.name.toList

theorem toList_entry (declaration : UpvalueDeclaration) : declaration.entry.toList =
    Nat.toDigits 10 declaration.slot ++ '\t' ::
      (declaration.name.toList ++ declaration.originColumns.toList) := by
  simp [entry, Nat.toList_repr]

variable {declaration : UpvalueDeclaration}

theorem Printable.words_name (printable : declaration.Printable) :
    ∃ others, Text.words (declaration.name.toList ++ declaration.originColumns.toList) =
      declaration.name.toList :: others := by
  unfold originColumns
  split
  · refine ⟨[], ?_⟩
    rw [show "".toList = [] from rfl, List.append_nil, printable.name_word.words_eq]
  · rename_i inStack index _
    refine ⟨Text.words (inStack.repr.toList ++ '\t' :: index.repr.toList), ?_⟩
    have form : ("\t" ++ inStack.repr ++ "\t" ++ index.repr).toList =
        '\t' :: (inStack.repr.toList ++ '\t' :: index.repr.toList) := by simp
    rw [form, Text.words_append_cons rfl, printable.name_word.words_eq]
    rfl

theorem Printable.upvalueEntry?_eq (printable : declaration.Printable) :
    Registers.upvalueEntry? (Text.trim declaration.entry.toList) =
      some (declaration.slot, declaration.name) := by
  rcases printable.words_name with ⟨others, name⟩
  have slot := Text.readBelow_toDigits printable.slot_lt
  unfold Registers.upvalueEntry?
  rw [Text.words_trim, toList_entry, Text.words_append_cons rfl, name,
    (Text.isWord_toDigits _).words_eq]
  simp [Text.readIndex, slot]

theorem Printable.single (printable : declaration.Printable) :
    '\n' ∉ declaration.entry.toList := by
  have digits := Text.not_mem_toDigits (c := '\n') rfl
  have name := printable.name_word.not_mem (c := '\n') rfl
  have origin : '\n' ∉ declaration.originColumns.toList := by
    unfold originColumns
    split
    · exact List.not_mem_nil
    · simp [Nat.toList_repr, digits]
  rw [toList_entry]
  simp [digits, name, origin]

end UpvalueDeclaration

/-! ## Section headers -/

namespace Section

def header (kind : Section) (count : Nat) (address : String) : String :=
  kind.name ++ " (" ++ count.repr ++ ") for " ++ address ++ ":"

theorem trim_header (kind : Section) (count : Nat) (address : String) :
    Text.trim (kind.header count address).toList = (kind.header count address).toList := by
  have form : (kind.header count address).toList = kind.name.toList ++
      ((" (" ++ count.repr ++ ") for " ++ address).toList ++ [':']) := by
    simp [header]
  have word : Text.IsWord kind.name.toList := by
    cases kind <;> decide
  rw [form, word.trim_append_concat _ rfl]

theorem count?_header (kind : Section) {count : Nat} (fits : count < UInt64.size)
    (address : String) : kind.count? (kind.header count address).toList = some (some count) := by
  have form : (kind.header count address).toList = (kind.name ++ " (").toList ++
      (Nat.toDigits 10 count ++ ')' :: (" for " ++ address ++ ":").toList) := by
    simp [header, Nat.toList_repr]
  unfold count?
  rw [form, Text.after?_append, Option.map_some, Text.cut?_append (Text.not_mem_toDigits rfl _)]
  simp only [Option.bind_some, Text.readCount, Text.readBelow_toDigits fits]

theorem count?_header_of_ne {kind other : Section} (differs : other ≠ kind) (count : Nat)
    (address : String) : other.count? (kind.header count address).toList = none := by
  cases kind <;> cases other <;>
    simp_all [count?, header, name, Text.after?, List.isPrefixOf?]

theorem ofHeader?_header (kind : Section) {count : Nat} (fits : count < UInt64.size)
    (address : String) : ofHeader? (kind.header count address).toList = some (kind, count) := by
  have own := count?_header kind fits address
  have others := fun other (differs : other ≠ kind) => count?_header_of_ne differs count address
  cases kind with
  | constants => simp [ofHeader?, own]
  | locals => simp [ofHeader?, own, others .constants]
  | upvalues => simp [ofHeader?, own, others .constants, others .locals]

theorem not_isHeader_header (kind : Section) (count : Nat) (address : String) :
    Listing.isHeader (kind.header count address).toList = false := by
  cases kind <;> simp [Listing.isHeader, header, name, Text.after?, List.isPrefixOf?]

end Section

end GlobalAudit
