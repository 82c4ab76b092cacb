import GlobalAudit.Proofs.Layout

/-!
# Reading back printed listings

A block holds what is printed for one function. Reading is followed line by line: one lemma says
what each kind of line does to the reader, the lines of a section and of a block follow from them by
induction, and a listing is its blocks one after the other.
-/
namespace GlobalAudit

/-! ## Runs of the reader -/

namespace Listing

variable {dialect : Dialect}

/-- The line takes the reader to the next one, wherever in the text it stands. -/
def Takes (dialect : Dialect) (reader : Reader) (line : String) (next : Reader) : Prop :=
  ∀ number, Reader.step dialect reader (Text.dropReturn line.toList, number) = .ok next

/-- The lines one after the other take the reader to the last one. -/
def Reads (dialect : Dialect) (reader : Reader) (lines : List String) (last : Reader) : Prop :=
  ∀ start, ((lines.map fun line => Text.dropReturn line.toList).zipIdx start).foldlM
    (Reader.step dialect) reader = .ok last

theorem Reads.nil (reader : Reader) : Reads dialect reader [] reader := fun _ => rfl

theorem Reads.cons {reader next last : Reader} {line : String} {lines : List String}
    (takes : Takes dialect reader line next) (reads : Reads dialect next lines last) :
    Reads dialect reader (line :: lines) last := by
  intro start
  rw [List.map_cons, List.zipIdx_cons, List.foldlM_cons, takes start]
  exact reads (start + 1)

theorem Reads.append {reader middle last : Reader} {early late : List String}
    (first : Reads dialect reader early middle) (second : Reads dialect middle late last) :
    Reads dialect reader (early ++ late) last := by
  intro start
  rw [List.map_append, List.zipIdx_append, List.foldlM_append, first start]
  exact second _

/-! ## One line -/

/-- A place at which a function or a section may begin. -/
def Place.IsClosed (place : Place) : Prop := ∀ line, closePlace line place = .ok ()

theorem isClosed_code : Place.code.IsClosed := fun _ => rfl

theorem isClosed_entries (kind : Section) (count : Nat) :
    (Place.entries kind count count).IsClosed := by
  intro line
  simp [closePlace]

/-- A text that starts with a digit, as entries and instructions do. -/
def IsNumbered (text : List Char) : Prop :=
  ∃ digit rest, text = digit :: rest ∧ digit.isDigit = true

instance : DecidablePred IsNumbered
  | [] => isFalse fun ⟨_, _, chars, _⟩ => nomatch chars
  | digit :: rest =>
    decidable_of_iff (digit.isDigit = true)
      ⟨fun isDigit => ⟨digit, rest, rfl, isDigit⟩, fun ⟨_, _, chars, isDigit⟩ => by
        rw [List.cons.injEq] at chars
        exact chars.1 ▸ isDigit⟩

theorem isNumbered_toDigits (value : Nat) (rest : List Char) :
    IsNumbered (Nat.toDigits 10 value ++ rest) := by
  cases chars : Nat.toDigits 10 value with
  | nil => exact absurd chars Nat.toDigits_ne_nil
  | cons digit others =>
      exact ⟨digit, others ++ rest, rfl, Text.isDigit_of_mem_toDigits (chars ▸ List.mem_cons_self)⟩

theorem IsNumbered.trim {text : List Char} (numbered : IsNumbered text) :
    IsNumbered (Text.trim text) := by
  rcases numbered with ⟨digit, rest, rfl, isDigit⟩
  rw [Text.trim_cons_of_solid (Text.isBlank_of_isDigit isDigit)]
  exact ⟨digit, _, rfl, isDigit⟩

theorem IsNumbered.after?_eq_none {text : List Char} (numbered : IsNumbered text) (start : String)
    {c : Char} {more : List Char} (chars : start.toList = c :: more) (other : c.isDigit = false) :
    Text.after? start text = none := by
  rcases numbered with ⟨digit, rest, rfl, isDigit⟩
  apply Text.after?_cons_of_ne chars
  rintro rfl
  rw [isDigit] at other
  cases other

theorem IsNumbered.not_isHeader {text : List Char} (numbered : IsNumbered text) :
    isHeader text = false := by
  unfold isHeader
  rw [numbered.after?_eq_none "main <" rfl rfl, numbered.after?_eq_none "function <" rfl rfl]
  rfl

theorem IsNumbered.ofHeader?_eq_none {text : List Char} (numbered : IsNumbered text) :
    Section.ofHeader? text = none := by
  have none (kind : Section) : kind.count? text = none := by
    have letter : ∃ c more, (kind.name ++ " (").toList = c :: more ∧ c.isDigit = false := by
      cases kind <;> simp [Section.name]
    rcases letter with ⟨c, more, chars, other⟩
    unfold Section.count?
    rw [numbered.after?_eq_none _ chars other, Option.map_none]
  simp [Section.ofHeader?, none]

/-- Among the instructions, a numbered line is read as one. -/
theorem step_code {functions : List Function} {line : List Char} (number : Nat)
    (numbered : IsNumbered (Text.trim line)) :
    Reader.step dialect ⟨functions, .code⟩ (line, number) =
      Reader.code dialect ⟨functions, .code⟩ line number := by
  simp [Reader.step, numbered.not_isHeader, numbered.ofHeader?_eq_none]

theorem takes_empty (reader : Reader) : Takes dialect reader "" reader := by
  intro number
  rcases reader with ⟨functions, _ | _ | ⟨kind, expected, found⟩⟩
  · rfl
  · rfl
  · have none : isEntry (.entries kind expected found) (Text.trim (Text.dropReturn "".toList)) =
        false := Bool.and_false _
    unfold Reader.step
    simp only [none]
    rfl

theorem takes_header (dialect : Dialect) {header : String} (starts : isHeader header.toList = true)
    (trimmed : Text.trim header.toList = header.toList) (functions : List Function) {place : Place}
    (closed : place.IsClosed) :
    Takes dialect ⟨functions, place⟩ header ⟨.ofHeader header.toList :: functions, .code⟩ := by
  intro number
  unfold Reader.step
  simp only [Text.trim_dropReturn, trimmed, starts, closed number]
  rfl

theorem takes_instruction {instruction : Instruction} (printable : instruction.Printable dialect)
    (current : Function) (earlier : List Function) :
    Takes dialect ⟨current :: earlier, .code⟩ instruction.text
      ⟨current.addInstruction instruction :: earlier, .code⟩ := by
  intro number
  have numbered : IsNumbered (Text.trim (Text.dropReturn instruction.text.toList)) := by
    rw [Text.trim_dropReturn, Instruction.toList_text, Text.trim_cons_of_blank rfl]
    exact (isNumbered_toDigits _ _).trim
  have known : (dialect.role? instruction.opcode).isNone = false := by
    rw [Option.isNone_eq_false_iff]
    exact printable.known
  rw [step_code number numbered]
  simp [Reader.code, printable.ofLine_text, known]

theorem takes_section (kind : Section) {count : Nat} (fits : count < UInt64.size) (address : String)
    (functions : List Function) {place : Place} (closed : place.IsClosed) :
    Takes dialect ⟨functions, place⟩ (kind.header count address)
      ⟨functions, .entries kind count 0⟩ := by
  intro number
  unfold Reader.step
  simp only [Text.trim_dropReturn, kind.trim_header, kind.not_isHeader_header,
    kind.ofHeader?_header fits, closed number]
  rfl

theorem takes_entry (kind : Section) {entry : String} (numbered : IsNumbered entry.toList)
    (current : Function) (earlier : List Function) {expected found : Nat}
    (missing : found < expected) :
    Takes dialect ⟨current :: earlier, .entries kind expected found⟩ ("\t" ++ entry)
      ⟨current.addEntry kind (Text.trim entry.toList) :: earlier,
        .entries kind expected (found + 1)⟩ := by
  intro number
  have inner : Text.trim (Text.dropReturn ("\t" ++ entry).toList) = Text.trim entry.toList := by
    rw [Text.trim_dropReturn, String.toList_append]
    exact Text.trim_cons_of_blank rfl entry.toList
  have found : isEntry (.entries kind expected found) (Text.trim entry.toList) = true := by
    rcases numbered.trim with ⟨digit, rest, chars, isDigit⟩
    simp [isEntry, chars, isDigit, missing]
  unfold Reader.step
  simp only [inner, numbered.trim.not_isHeader, numbered.trim.ofHeader?_eq_none, found]
  rfl

/-! ## The lines of a section -/

/-- What is printed for a section. -/
def sectionLines (kind : Section) (address : String) (entries : List String) : List String :=
  kind.header entries.length address :: entries.map fun entry => "\t" ++ entry

theorem sectionLines_single {kind : Section} {address : String} {entries : List String}
    (addressSingle : '\n' ∉ address.toList) (each : ∀ entry ∈ entries, '\n' ∉ entry.toList) :
    ∀ line ∈ sectionLines kind address entries, '\n' ∉ line.toList := by
  have digits := Text.not_mem_toDigits (c := '\n') rfl entries.length
  intro line member
  rcases List.mem_cons.mp member with rfl | member
  · cases kind <;> simp [Section.header, Section.name, Nat.toList_repr, digits, addressSingle]
  · rcases List.mem_map.mp member with ⟨entry, listed, rfl⟩
    have single := each entry listed
    simp [single]

def addEntries (kind : Section) (entries : List String) (function : Function) : Function :=
  entries.foldl (fun function entry => function.addEntry kind (Text.trim entry.toList)) function

theorem reads_entries (dialect : Dialect) (kind : Section) {entries : List String}
    (numbered : ∀ entry ∈ entries, IsNumbered entry.toList) (current : Function)
    (earlier : List Function) (found : Nat) :
    Reads dialect ⟨current :: earlier, .entries kind (found + entries.length) found⟩
      (entries.map fun entry => "\t" ++ entry)
      ⟨addEntries kind entries current :: earlier,
        .entries kind (found + entries.length) (found + entries.length)⟩ := by
  -- The announced count stays what is found plus what is still to come.
  induction entries generalizing current found with
  | nil => exact Reads.nil _
  | cons entry rest ih =>
      rcases List.forall_mem_cons.mp numbered with ⟨first, later⟩
      have count : found + (entry :: rest).length = found + 1 + rest.length := by
        rw [List.length_cons]
        omega
      rw [count]
      exact Reads.cons (takes_entry kind first current earlier (by omega))
        (ih later (current.addEntry kind (Text.trim entry.toList)) (found + 1))

/-- A section that says how many entries it has is read to its end. -/
theorem reads_section (dialect : Dialect) (kind : Section) {entries : List String}
    (fits : entries.length < UInt64.size) (numbered : ∀ entry ∈ entries, IsNumbered entry.toList)
    (address : String) (current : Function) (earlier : List Function) {place : Place} (closed : place.IsClosed) :
    Reads dialect ⟨current :: earlier, place⟩ (sectionLines kind address entries)
      ⟨addEntries kind entries current :: earlier,
        .entries kind entries.length entries.length⟩ := by
  have entriesRead := reads_entries dialect kind numbered current earlier 0
  rw [Nat.zero_add] at entriesRead
  exact Reads.cons (takes_section kind fits address _ closed) entriesRead

theorem reads_instructions {instructions : List Instruction}
    (printable : ∀ instruction ∈ instructions, instruction.Printable dialect) (current : Function)
    (earlier : List Function) :
    Reads dialect ⟨current :: earlier, .code⟩ (instructions.map Instruction.text)
      ⟨{ current with instructions := current.instructions ++ instructions } :: earlier,
        .code⟩ := by
  induction instructions generalizing current with
  | nil =>
      rw [List.append_nil]
      exact Reads.nil _
  | cons instruction rest ih =>
      rcases List.forall_mem_cons.mp printable with ⟨first, later⟩
      have added := ih later (current.addInstruction instruction)
      simp only [Function.addInstruction, List.append_assoc, List.singleton_append] at added
      exact Reads.cons (takes_instruction first current earlier) added

theorem addEntries_constants (entries : List String) (function : Function) :
    addEntries .constants entries function = function := by
  unfold addEntries
  induction entries with
  | nil => rfl
  | cons entry rest ih => exact ih

/-- Entries that each go to the registers all go there, in their order. -/
theorem addEntries_map {α : Type} {kind : Section} {entry : α → String}
    {add : Registers → α → Registers} {given : List α}
    (each : ∀ item ∈ given, ∀ function : Function,
      function.addEntry kind (Text.trim (entry item).toList) =
        { function with registers := add function.registers item }) (function : Function) :
    addEntries kind (given.map entry) function =
      { function with registers := given.foldl add function.registers } := by
  unfold addEntries
  induction given generalizing function with
  | nil => rfl
  | cons item rest ih =>
      rcases List.forall_mem_cons.mp each with ⟨first, later⟩
      rw [List.map_cons, List.foldl_cons, first, ih later]
      rfl

/-- A section whose entries go to the registers. -/
theorem reads_registers (dialect : Dialect) {α : Type} {kind : Section} {entry : α → String}
    {add : Registers → α → Registers} {given : List α} (fits : given.length < UInt64.size)
    (numbered : ∀ item, IsNumbered (entry item).toList)
    (each : ∀ item ∈ given, ∀ function : Function,
      function.addEntry kind (Text.trim (entry item).toList) =
        { function with registers := add function.registers item })
    (address : String) (current : Function) (earlier : List Function) {place : Place}
    (closed : place.IsClosed) :
    Reads dialect ⟨current :: earlier, place⟩ (sectionLines kind address (given.map entry))
      ⟨{ current with registers := given.foldl add current.registers } :: earlier,
        .entries kind given.length given.length⟩ := by
  have numberedAll : ∀ text ∈ given.map entry, IsNumbered text.toList := by
    intro text member
    rcases List.mem_map.mp member with ⟨item, _, rfl⟩
    exact numbered item
  have length : (given.map entry).length = given.length := List.length_map entry
  have reads := reads_section dialect kind (length ▸ fits) numberedAll address current earlier
    closed
  rw [addEntries_map each, length] at reads
  exact reads

end Listing

theorem LocalDeclaration.numbered_entry (declaration : LocalDeclaration) :
    Listing.IsNumbered declaration.entry.toList := by
  rw [toList_entry]
  exact Listing.isNumbered_toDigits _ _

theorem UpvalueDeclaration.numbered_entry (declaration : UpvalueDeclaration) :
    Listing.IsNumbered declaration.entry.toList := by
  rw [toList_entry]
  exact Listing.isNumbered_toDigits _ _

theorem LocalDeclaration.Printable.addEntry_eq {declaration : LocalDeclaration}
    (printable : declaration.Printable) (function : Function) :
    function.addEntry .locals (Text.trim declaration.entry.toList) =
      { function with registers := function.registers.addDeclaration declaration } := by
  simp only [Function.addEntry, printable.localEntry?_eq]
  rfl

def UpvalueDeclaration.upvalue (declaration : UpvalueDeclaration) : Upvalue :=
  ⟨declaration.slot, declaration.name⟩

def Registers.addUpvalueDeclaration (registers : Registers) (declaration : UpvalueDeclaration) :
    Registers :=
  registers.addUpvalue declaration.slot declaration.name

theorem Registers.foldl_addUpvalueDeclaration (declarations : List UpvalueDeclaration)
    (registers : Registers) : declarations.foldl addUpvalueDeclaration registers =
      { registers with
        upvalues := registers.upvalues ++ declarations.map UpvalueDeclaration.upvalue } := by
  induction declarations generalizing registers with
  | nil =>
      rw [List.map_nil, List.append_nil]
      rfl
  | cons declaration rest ih =>
      rw [List.foldl_cons, ih]
      simp [addUpvalueDeclaration, addUpvalue, UpvalueDeclaration.upvalue]

theorem Registers.upvalues_ofDeclarations (declarations : List LocalDeclaration) :
    (ofDeclarations declarations).upvalues = [] := by
  induction declarations using List.reverseRecOn with
  | nil => rfl
  | append_singleton earlier last ih =>
      rw [ofDeclarations_concat]
      exact ih

theorem UpvalueDeclaration.Printable.addEntry_eq {declaration : UpvalueDeclaration}
    (printable : declaration.Printable) (function : Function) :
    function.addEntry .upvalues (Text.trim declaration.entry.toList) =
      { function with registers := function.registers.addUpvalueDeclaration declaration } := by
  simp only [Function.addEntry, printable.upvalueEntry?_eq]
  rfl

/-! ## Blocks -/

/-- The ending of a noun with a count. -/
def plural (count : Nat) : String := if count = 1 then "" else "s"

/-- A count with its noun. -/
def counted (count : Nat) (noun : String) : String := count.repr ++ " " ++ noun ++ plural count

/-- What is printed for a function. Names, comments and constants are free text as far as they stay
on their line and in their column. -/
structure Block (dialect : Dialect) where
  header : String
  parameters : Nat
  isVararg : Bool
  slots : Nat
  nested : Nat
  address : String
  instructions : List Instruction
  constants : List String
  locals : List LocalDeclaration
  upvalues : List UpvalueDeclaration
  header_starts : "main <".toList <+: header.toList ∨ "function <".toList <+: header.toList
  header_trimmed : Text.trim header.toList = header.toList
  header_single : '\n' ∉ header.toList
  address_single : '\n' ∉ address.toList
  instructions_printable : ∀ instruction ∈ instructions, instruction.Printable dialect
  constants_numbered : ∀ entry ∈ constants, Listing.IsNumbered entry.toList
  constants_single : ∀ entry ∈ constants, '\n' ∉ entry.toList
  constants_lt : constants.length < UInt64.size
  locals_printable : ∀ declaration ∈ locals, declaration.Printable
  locals_lt : locals.length < UInt64.size
  upvalues_printable : ∀ declaration ∈ upvalues, declaration.Printable
  upvalues_lt : upvalues.length < UInt64.size

namespace Block

variable {dialect : Dialect}

/-- The counts behind the noun of the parameters. -/
def otherCounts (block : Block dialect) : String :=
  plural block.parameters ++ ", " ++ counted block.slots "slot" ++ ", " ++
    counted block.upvalues.length "upvalue" ++ ", " ++ counted block.locals.length "local" ++
    ", " ++ counted block.constants.length "constant" ++ ", " ++ counted block.nested "function"

/-- The line behind the header. -/
def countsLine (block : Block dialect) : String :=
  block.parameters.repr ++ (if block.isVararg then "+" else "") ++ " param" ++ block.otherCounts

/-- The sections behind the instructions. -/
def sections (block : Block dialect) : List String :=
  Listing.sectionLines .constants block.address block.constants ++
    (Listing.sectionLines .locals block.address (block.locals.map LocalDeclaration.entry) ++
      Listing.sectionLines .upvalues block.address (block.upvalues.map UpvalueDeclaration.entry))

def lines (block : Block dialect) : List String :=
  ["", block.header, block.countsLine] ++
    (block.instructions.map Instruction.text ++ block.sections)

/-- The text of a listing. -/
def print (blocks : List (Block dialect)) : String := Text.unlines (blocks.flatMap lines)

/-- The function that a block is printed for. -/
def function (block : Block dialect) : Function :=
  ⟨block.header, block.instructions, block.upvalues.foldl Registers.addUpvalueDeclaration
    (Registers.ofDeclarations block.locals)⟩

theorem isHeader_header (block : Block dialect) :
    Listing.isHeader block.header.toList = true := by
  unfold Listing.isHeader
  rcases block.header_starts with ⟨rest, chars⟩ | ⟨rest, chars⟩
  · rw [← chars, Text.after?_append]
    rfl
  · rw [← chars, Text.after?_append, Option.isSome_some, Bool.or_true]

theorem toList_countsLine (block : Block dialect) : block.countsLine.toList =
    Nat.toDigits 10 block.parameters ++ ((if block.isVararg then ['+'] else []) ++
      ' ' :: 'p' :: ("aram" ++ block.otherCounts).toList) := by
  cases vararg : block.isVararg <;> simp [countsLine, vararg, Nat.toList_repr]

/-- The counts start with a number too, but no bracket follows it. -/
theorem columns?_counts (value : Nat) (isVararg : Bool) (rest : List Char) :
    Instruction.columns? (Nat.toDigits 10 value ++ ((if isVararg then ['+'] else []) ++
      ' ' :: 'p' :: rest)) = none := by
  cases isVararg with
  | true =>
      have plus := Instruction.columns?_toDigits value (c := '+') rfl (' ' :: 'p' :: rest)
      rw [Text.trimStart_cons_of_solid rfl] at plus
      exact plus
  | false =>
      have blank := Instruction.columns?_toDigits value (c := ' ') rfl ('p' :: rest)
      rw [Text.trimStart_cons_of_blank rfl, Text.trimStart_cons_of_solid rfl] at blank
      exact blank

theorem takes_countsLine (block : Block dialect) (functions : List Function) :
    Listing.Takes dialect ⟨functions, .code⟩ block.countsLine ⟨functions, .code⟩ := by
  intro number
  -- Whatever stands at the end of the line, the number and what follows it are kept.
  have kept : ∃ rest, Text.dropReturn block.countsLine.toList =
      Nat.toDigits 10 block.parameters ++ ((if block.isVararg then ['+'] else []) ++
        ' ' :: 'p' :: rest) := by
    refine ⟨Text.dropReturn ("aram" ++ block.otherCounts).toList, ?_⟩
    have early := Text.dropReturn_append (Nat.toDigits 10 block.parameters ++
      ((if block.isVararg then ['+'] else []) ++ [' ', 'p']))
      (show ("aram" ++ block.otherCounts).toList ≠ [] by simp)
    rw [toList_countsLine]
    simpa only [List.append_assoc, List.cons_append, List.nil_append] using early
  rcases kept with ⟨rest, chars⟩
  have numbered : Listing.IsNumbered (Text.trim (Text.dropReturn block.countsLine.toList)) := by
    rw [chars]
    exact (Listing.isNumbered_toDigits _ _).trim
  have columns := columns?_counts block.parameters block.isVararg rest
  rw [Listing.step_code number numbered, chars]
  unfold Listing.Reader.code Instruction.ofLine
  rw [columns]

/-- The sections put their entries into the registers of the function before them. -/
theorem reads_sections (block : Block dialect) (earlier : List Function) :
    Listing.Reads dialect
      ⟨⟨block.header, block.instructions, .empty⟩ :: earlier, .code⟩ block.sections
      ⟨block.function :: earlier,
        .entries .upvalues block.upvalues.length block.upvalues.length⟩ := by
  have constants := Listing.reads_section dialect .constants block.constants_lt
    block.constants_numbered block.address ⟨block.header, block.instructions, .empty⟩ earlier
    Listing.isClosed_code
  rw [Listing.addEntries_constants] at constants
  have locals := Listing.reads_registers dialect block.locals_lt LocalDeclaration.numbered_entry
    (fun declaration member => (block.locals_printable declaration member).addEntry_eq)
    block.address ⟨block.header, block.instructions, .empty⟩ earlier
    (Listing.isClosed_entries .constants block.constants.length)
  have upvalues := Listing.reads_registers dialect block.upvalues_lt
    UpvalueDeclaration.numbered_entry
    (fun declaration member => (block.upvalues_printable declaration member).addEntry_eq)
    block.address ⟨block.header, block.instructions, Registers.ofDeclarations block.locals⟩ earlier
    (Listing.isClosed_entries .locals block.locals.length)
  exact constants.append (locals.append upvalues)

/-- A block adds its function to those before it, and the next one may follow. -/
theorem reads_lines (block : Block dialect) (earlier : List Function) {place : Listing.Place}
    (closed : place.IsClosed) :
    Listing.Reads dialect ⟨earlier, place⟩ block.lines ⟨block.function :: earlier,
      .entries .upvalues block.upvalues.length block.upvalues.length⟩ := by
  have header := Listing.takes_header dialect block.isHeader_header block.header_trimmed earlier
    closed
  rw [Function.ofHeader, String.ofList_toList] at header
  have start : Listing.Reads dialect ⟨earlier, place⟩ ["", block.header, block.countsLine]
      ⟨⟨block.header, [], .empty⟩ :: earlier, .code⟩ :=
    .cons (Listing.takes_empty _) (.cons header (.cons (block.takes_countsLine _) (.nil _)))
  have code := Listing.reads_instructions block.instructions_printable
    ⟨block.header, [], .empty⟩ earlier
  rw [List.nil_append] at code
  exact start.append (code.append (block.reads_sections earlier))

/-- Blocks are read one after the other, from whatever functions come before them. -/
theorem reads_blocks (blocks : List (Block dialect)) (earlier : List Function)
    {place : Listing.Place} (closed : place.IsClosed) :
    ∃ last : Listing.Place, last.IsClosed ∧
      Listing.Reads dialect ⟨earlier, place⟩ (blocks.flatMap lines)
        ⟨(blocks.map function).reverse ++ earlier, last⟩ := by
  -- A block only needs the place before it to be closed, and leaves a closed one behind.
  induction blocks generalizing earlier place with
  | nil => exact ⟨place, closed, .nil _⟩
  | cons block rest ih =>
      rcases ih (block.function :: earlier) (Listing.isClosed_entries .upvalues _) with
        ⟨last, lastClosed, reads⟩
      refine ⟨last, lastClosed, ?_⟩
      rw [List.flatMap_cons, List.map_cons, List.reverse_cons, List.append_assoc,
        List.singleton_append]
      exact (block.reads_lines earlier closed).append reads

theorem plural_single (count : Nat) : '\n' ∉ (plural count).toList := by
  unfold plural
  split <;> decide

theorem counted_single (count : Nat) {noun : String} (single : '\n' ∉ noun.toList) :
    '\n' ∉ (counted count noun).toList := by
  have digits := Text.not_mem_toDigits (c := '\n') rfl count
  simp [counted, Nat.toList_repr, digits, single, plural_single]

theorem countsLine_single (block : Block dialect) : '\n' ∉ block.countsLine.toList := by
  have digits := Text.not_mem_toDigits (c := '\n') rfl block.parameters
  have others : '\n' ∉ block.otherCounts.toList := by
    simp [otherCounts, counted_single, plural_single]
  have mark : '\n' ∉ (if block.isVararg then ['+'] else []) := by
    split <;> decide
  rw [toList_countsLine]
  simp [digits, mark, others]

/-- No line of a block falls apart. -/
theorem lines_single (block : Block dialect) : ∀ line ∈ block.lines, '\n' ∉ line.toList := by
  have locals : ∀ entry ∈ block.locals.map LocalDeclaration.entry, '\n' ∉ entry.toList := by
    intro entry member
    rcases List.mem_map.mp member with ⟨declaration, listed, rfl⟩
    exact (block.locals_printable declaration listed).single
  have upvalues : ∀ entry ∈ block.upvalues.map UpvalueDeclaration.entry, '\n' ∉ entry.toList := by
    intro entry member
    rcases List.mem_map.mp member with ⟨declaration, listed, rfl⟩
    exact (block.upvalues_printable declaration listed).single
  intro line member
  simp only [lines, sections, List.mem_append, List.mem_cons, List.not_mem_nil, or_false,
    List.mem_map] at member
  rcases member with (rfl | rfl | rfl) | ⟨instruction, listed, rfl⟩ | inside | inside | inside
  · exact List.not_mem_nil
  · exact block.header_single
  · exact block.countsLine_single
  · exact (block.instructions_printable instruction listed).single
  · exact Listing.sectionLines_single block.address_single block.constants_single line inside
  · exact Listing.sectionLines_single block.address_single locals line inside
  · exact Listing.sectionLines_single block.address_single upvalues line inside

theorem declarations_function (block : Block dialect) :
    block.function.registers.locals.map LocalVariable.declaration = block.locals := by
  rw [function, Registers.foldl_addUpvalueDeclaration]
  exact Registers.declarations_ofDeclarations block.locals

theorem upvalues_function (block : Block dialect) :
    block.function.registers.upvalues = block.upvalues.map UpvalueDeclaration.upvalue := by
  rw [function, Registers.foldl_addUpvalueDeclaration]
  simp only [Registers.upvalues_ofDeclarations, List.nil_append]

theorem parse_blocks (blocks : List (Block dialect)) :
    Listing.parse dialect (print blocks) = .ok ⟨dialect, blocks.map function⟩ := by
  have single : ∀ line ∈ blocks.flatMap lines, '\n' ∉ line.toList := by
    intro line member
    rcases List.mem_flatMap.mp member with ⟨block, _, inside⟩
    exact block.lines_single line inside
  have started : Listing.Place.preamble.IsClosed := fun _ => rfl
  rcases reads_blocks blocks [] started with ⟨last, closed, reads⟩
  unfold Listing.parse print
  rw [Text.lines_unlines single]
  simp only [Listing.Reader.start, reads 1, List.append_nil, Except.bind, bind, closed _]
  simp [pure, Except.pure]

/-- Reading a printed listing gives the functions it was printed for, in their order and each with
its own instructions; the registers of each hold its locals and upvalues, in their order. -/
theorem parse_print (blocks : List (Block dialect)) :
    Listing.parse dialect (print blocks) = .ok ⟨dialect, blocks.map function⟩ ∧
      ∀ block : Block dialect,
        block.function.header = block.header ∧
        block.function.instructions = block.instructions ∧
        block.function.registers.locals.map LocalVariable.declaration = block.locals ∧
        block.function.registers.upvalues = block.upvalues.map UpvalueDeclaration.upvalue :=
  ⟨parse_blocks blocks, fun block =>
    ⟨rfl, rfl, block.declarations_function, block.upvalues_function⟩⟩

/-- A loop; the comment and the constants look like headers. -/
def loop : Block .lua51 where
  header := "main <loop.lua:0,0> (4 instructions, 16 bytes at 0x1)"
  parameters := 0
  isVararg := true
  slots := 5
  nested := 1
  address := "0x1"
  instructions :=
    [⟨1, 1, .loadK, 0, some (-1), none, some "\"main <\" ; locals (9)"⟩,
     ⟨2, 0, .forPrep, 0, some 2147483647, none, some "to 4"⟩,
     ⟨3, 2, .call, 4, some 2, some 1, none⟩,
     ⟨4, 4294967295, .close, -2147483648, none, none, none⟩]
  constants := ["1\t\"main <\"", "2\tlocals (9) for 0x1:"]
  locals := [⟨0, "(for index)", 2, 4⟩, ⟨1, "i", 3, 4⟩]
  upvalues := []
  header_starts := by decide
  header_trimmed := by decide
  header_single := by decide
  address_single := by decide
  instructions_printable := by decide
  constants_numbered := by decide
  constants_single := by decide
  constants_lt := by decide
  locals_printable := by
    have spaced : Text.SingleSpaced "(for index)" :=
      ⟨["(for".toList, "index)".toList], by decide, by decide, by decide⟩
    have word : Text.SingleSpaced "i" :=
      (Text.isWord_of_isIdentifier (by decide)).singleSpaced
    intro declaration member
    rcases List.mem_pair.mp member with rfl | rfl
    · exact ⟨by decide, spaced, by decide, by decide⟩
    · exact ⟨by decide, word, by decide, by decide⟩
  locals_lt := by decide
  upvalues_printable := by simp
  upvalues_lt := by decide

/-- A function inside the loop that has an upvalue and nothing else. -/
def callback : Block .lua51 where
  header := "function <loop.lua:2,2> (1 instruction, 4 bytes at 0x2)"
  parameters := 1
  isVararg := false
  slots := 2
  nested := 0
  address := "0x2"
  instructions := [⟨1, 2, .getUpval, 0, some 0, none, some "i"⟩]
  constants := []
  locals := []
  upvalues := [⟨0, "i", none⟩]
  header_starts := by decide
  header_trimmed := by decide
  header_single := by decide
  address_single := by decide
  instructions_printable := by decide
  constants_numbered := by simp
  constants_single := by simp
  constants_lt := by decide
  locals_printable := by simp
  locals_lt := by decide
  upvalues_printable := by
    intro declaration member
    rw [List.mem_singleton.mp member]
    exact ⟨by decide, by decide⟩
  upvalues_lt := by decide

theorem parse_print_of_loop :
    [loop, callback].flatMap lines =
      ["",
       "main <loop.lua:0,0> (4 instructions, 16 bytes at 0x1)",
       "0+ params, 5 slots, 0 upvalues, 2 locals, 2 constants, 1 function",
       "\t1\t[1]\tLOADK    \t0 -1\t; \"main <\" ; locals (9)",
       "\t2\t[-]\tFORPREP  \t0 2147483647\t; to 4",
       "\t3\t[2]\tCALL     \t4 2 1",
       "\t4\t[4294967295]\tCLOSE    \t-2147483648",
       "constants (2) for 0x1:",
       "\t1\t\"main <\"",
       "\t2\tlocals (9) for 0x1:",
       "locals (2) for 0x1:",
       "\t0\t(for index)\t2\t4",
       "\t1\ti\t3\t4",
       "upvalues (0) for 0x1:",
       "",
       "function <loop.lua:2,2> (1 instruction, 4 bytes at 0x2)",
       "1 param, 2 slots, 1 upvalue, 0 locals, 0 constants, 0 functions",
       "\t1\t[2]\tGETUPVAL \t0 0\t; i",
       "constants (0) for 0x2:",
       "locals (0) for 0x2:",
       "upvalues (1) for 0x2:",
       "\t0\ti"] ∧
    Listing.parse .lua51 (print [loop, callback]) =
      .ok ⟨.lua51, [loop.function, callback.function]⟩ :=
  ⟨by decide +kernel, (parse_print [loop, callback]).1⟩

end Block

end GlobalAudit
