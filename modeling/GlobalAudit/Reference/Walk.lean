import GlobalAudit.Bytecode.Listing
import GlobalAudit.Catalog.Basic
import GlobalAudit.Reference.Facts

/-! Collecting the facts of a file. Each function is walked once, instruction by instruction. The
walk remembers the last value with a name that was loaded, so that a field access on the same
register and line extends the name; and it remembers registers that hold a table with a name, so
that a local which turns out to live there becomes an alias of that name. Functions come in the order
of the listing, so an alias made in an outer function is there when an inner one reaches the local
as an upvalue. -/
namespace GlobalAudit

/-- A named value in a register, on which the next field access may build. -/
structure Anchor where
  register : Int
  name : String
  line : Nat
  called : Bool
  deriving DecidableEq, Repr

/-- A register that was just loaded with something named; the local that lives in it becomes an
alias of the name. -/
structure Pending where
  register : Int
  name : String
  madeAt : Nat
  deriving DecidableEq, Repr

/-- The state of a walk through one function. -/
structure Walk where
  anchor : Option Anchor
  pending : List Pending
  /-- No instruction of the function is done yet. -/
  atStart : Bool
  registers : Registers
  facts : Facts

/-- What a walk knows beforehand. -/
structure Survey where
  dialect : Dialect
  catalog : Catalog

/-- Given to the module declaration, this field of a library keeps the globals outside visible. -/
def seeAllName : String := "seeall"

/-- The register some places behind another one; the numbers of registers have thirty-two bits. -/
def registerBehind (register places : Int) : Int := (register + places).bmod UInt32.size

/-- Whether an instruction stores into a register. -/
def Instruction.overwrites (instruction : Instruction) (register : Int) : Bool :=
  let a := instruction.a
  match instruction.opcode with
  | .move | .loadK | .loadKX | .loadBool | .getUpval | .getGlobal | .getTabUp | .getTable
  | .newTable | .add | .sub | .mul | .div | .mod | .pow | .unm | .not | .len | .concat | .testSet
  | .closure | .forPrep => register == a
  | .self => register == a || register == registerBehind a 1
  | .forLoop => register == a || register == registerBehind a 3
  | .loadNil => a ≤ register && register ≤ registerBehind a (max (instruction.b.getD 0) 0)
  | .call | .vararg | .tforCall | .tforLoop => a ≤ register
  | _ => false

namespace Survey

def role (survey : Survey) (instruction : Instruction) : Role :=
  (survey.dialect.role? instruction.opcode).getD .other

end Survey

namespace Walk

def start (registers : Registers) (facts : Facts) : Walk := ⟨none, [], true, registers, facts⟩

/-- The position of the local in a register. -/
def local? (register : Int) (index : Nat) (atStart : Bool) (walk : Walk) : Option Nat :=
  register.toNat?.bind fun slot => walk.registers.find? slot index atStart

/-- The name that the local in a register stands for. -/
def aliasIn? (register : Int) (index : Nat) (walk : Walk) : Option String :=
  (walk.local? register index walk.atStart).bind fun position =>
    walk.registers.locals[position]?.bind LocalVariable.target

/-- Makes the local in a register stand for a name, its own unless another is given, and gives the
name of the local. -/
def promote (register : Int) (index : Nat) (target : Option String) (atStart : Bool) (walk : Walk) :
    Walk × Option String :=
  match walk.local? register index atStart with
  | none => (walk, none)
  | some position =>
    match walk.registers.locals[position]? with
    | none => (walk, none)
    | some found =>
      ({ walk with
          registers := walk.registers.promote position target
          facts := walk.facts.addAlias (found.promoted target).asAlias }, some found.name)

def reference (line : Nat) (name : String) (isWrite : Bool) (walk : Walk) : Walk :=
  { walk with facts := walk.facts.addReference line name isWrite }

/-- The next field access on the register extends the name. -/
def setAnchor (register : Int) (name : String) (line : Nat) (walk : Walk) : Walk :=
  { walk with anchor := some ⟨register, name, line, false⟩ }

/-- A local found in the register becomes an alias of the name. -/
def expectAlias (register : Int) (name : String) (index : Nat) (walk : Walk) : Walk :=
  { walk with
    pending := walk.pending.filter (fun entry => entry.register != register) ++
      [⟨register, name, index⟩] }

/-- A named value in register A, for the next access and for a local that lives there. -/
def load (instruction : Instruction) (name : String) (walk : Walk) : Walk :=
  (walk.setAnchor instruction.a name instruction.line).expectAlias instruction.a name instruction.index

/-- Forgets the anchor in a register. -/
def dropAnchor (register : Int) (walk : Walk) : Walk :=
  match walk.anchor with
  | some anchor => if anchor.register = register then { walk with anchor := none } else walk
  | none => walk

/-- Turns the registers loaded by earlier instructions into aliases. A call may have other uses for
its registers, so before a call they are forgotten instead. -/
def settle (isCall : Bool) (instruction : Instruction) (walk : Walk) : Walk :=
  let ready := walk.pending.filter fun entry => entry.madeAt < instruction.index
  let fresh := walk.pending.filter fun entry => !(entry.madeAt < instruction.index : Bool)
  let rest := { walk with pending := fresh }
  if isCall then rest
  else ready.foldl (fun walk entry =>
    (walk.promote entry.register instruction.index (some entry.name) walk.atStart).1) rest

/-- An anchor whose register gets a new value is forgotten. Field accesses read their table first,
so they decide for themselves. -/
def forget (role : Role) (instruction : Instruction) (walk : Walk) : Walk :=
  if role = .tableRead ∨ role = .tableWrite then walk
  else match walk.anchor with
    | some anchor => if instruction.overwrites anchor.register then { walk with anchor := none } else walk
    | none => walk

/-- The module that a call of the loading function names: a string constant, then a call on the same
register. -/
def required? (survey : Survey) (instruction : Instruction) (ahead : List Instruction) :
    Option (String × Instruction) :=
  match ahead with
  | constant :: call :: _ =>
    if survey.role constant = .loadConstant ∧ survey.role call = .call ∧ call.a = instruction.a then
      constant.constant?.map fun name => (name, call)
    else none
  | _ => none

/-- A require call, whose single result goes to the local in its register. -/
def requireCall (survey : Survey) (instruction : Instruction) (ahead : List Instruction)
    (walk : Walk) : Walk :=
  match required? survey instruction ahead with
  | none => walk
  | some (name, call) =>
    let (walk, receiver) :=
      if call.c = some 2 then walk.promote call.a call.index none false else (walk, none)
    { walk with facts := walk.facts.addRequire instruction.line name receiver }

/-- Whether the arguments before the call mention the field that keeps globals visible. -/
def seesAll (survey : Survey) (instruction : Instruction) (ahead : List Instruction) : Bool :=
  (ahead.takeWhile fun later => !(survey.role later == .call && later.a == instruction.a)).any
    fun argument => survey.role argument == .tableRead && argument.constant? == some seeAllName

/-- The declaration that follows from what is passed: nothing or everything that the file was given
opens the module, a name makes it strict unless the globals outside are asked for. -/
def declaration? (survey : Survey) (instruction : Instruction) (ahead : List Instruction) :
    Option ModuleDeclaration :=
  match ahead with
  | [] => none
  | next :: _ =>
    match survey.role next with
    | .vararg => some ⟨instruction.line, none, .open⟩
    | .call => some ⟨instruction.line, none, .open⟩
    | .loadConstant =>
      next.constant?.map fun name =>
        ⟨instruction.line, some name, if seesAll survey instruction ahead then .open else .strict⟩
    | _ => none

def moduleCall (survey : Survey) (instruction : Instruction) (ahead : List Instruction)
    (walk : Walk) : Walk :=
  match declaration? survey instruction ahead with
  | none => walk
  | some declaration => { walk with facts := walk.facts.declare declaration }

/-- A field of an upvalue, which counts when the upvalue is an alias. -/
def upvalueField (instruction : Instruction) (upvalue field : String) (isWrite : Bool)
    (walk : Walk) : Walk :=
  match Alias.find? upvalue walk.facts.aliases with
  | none => walk
  | some known =>
    let name := Dotted.extend known.target field
    let walk := walk.reference instruction.line name isWrite
    if isWrite then walk else walk.load instruction name

def globalRead (survey : Survey) (instruction : Instruction) (ahead : List Instruction)
    (walk : Walk) : Walk :=
  match survey.dialect.target? instruction with
  | none => walk
  | some (.field upvalue name) => walk.upvalueField instruction upvalue name false
  | some (.global name) =>
    let walk := (walk.reference instruction.line name false).setAnchor instruction.a name instruction.line
    if name = requireName then walk.requireCall survey instruction ahead
    else if name = moduleName then walk.moduleCall survey instruction ahead
    else if survey.catalog.isTableLike name then
      walk.expectAlias instruction.a name instruction.index
    else walk

def globalWrite (survey : Survey) (instruction : Instruction) (walk : Walk) : Walk :=
  match survey.dialect.target? instruction with
  | none => walk
  | some (.field upvalue name) => walk.upvalueField instruction upvalue name true
  | some (.global name) =>
    if name = endOfGlobalsName then { walk with facts := walk.facts.markEnd instruction.line }
    else walk.reference instruction.line name true

/-- The name of what a register holds for a field access: the anchor, if it is in the register, of
the same line and not called, else the alias that lives there. Building on the anchor uses it up. -/
def baseOf (register : Int) (instruction : Instruction) (walk : Walk) : Walk × Option String :=
  match walk.anchor with
  | some anchor =>
    if anchor.register = register ∧ anchor.line = instruction.line ∧ anchor.called = false then
      ({ walk with anchor := none }, some anchor.name)
    else (walk, walk.aliasIn? register instruction.index)
  | none => (walk, walk.aliasIn? register instruction.index)

/-- Register A receives a field of the table in register B. -/
def tableRead (instruction : Instruction) (walk : Walk) : Walk :=
  match instruction.b with
  | none => walk
  | some table =>
    match instruction.constant? with
    | none => walk.dropAnchor instruction.a
    | some key =>
      match walk.baseOf table instruction with
      | (walk, some base) =>
        let name := Dotted.extend base key
        (walk.reference instruction.line name false).load instruction name
      | (walk, none) => walk.dropAnchor instruction.a

/-- A field of the table in register A is written. -/
def tableWrite (instruction : Instruction) (walk : Walk) : Walk :=
  match instruction.constant? with
  | none => walk
  | some key =>
    match walk.baseOf instruction.a instruction with
    | (walk, some base) => walk.reference instruction.line (Dotted.extend base key) true
    | (walk, none) => walk

/-- The name of the upvalue of an instruction, from the function's section or from the comment. -/
def upvalueName? (instruction : Instruction) (walk : Walk) : Option String :=
  match (instruction.b.bind Int.toNat?).bind fun slot => walk.registers.upvalue? slot with
  | some upvalue => some upvalue.name
  | none => instruction.upvalue?

/-- Loading an upvalue that is an alias loads what it stands for. -/
def upvalueRead (instruction : Instruction) (walk : Walk) : Walk :=
  match walk.upvalueName? instruction with
  | none => walk
  | some name =>
    match Alias.find? name walk.facts.aliases with
    | none => walk
    | some known => walk.load instruction known.target

/-- Replacing the environment declares a strict module. -/
def upvalueWrite (survey : Survey) (instruction : Instruction) (walk : Walk) : Walk :=
  match survey.dialect.environment? with
  | none => walk
  | some environment =>
    if walk.upvalueName? instruction = some environment then
      let declaration : ModuleDeclaration :=
        ⟨instruction.line, walk.aliasIn? instruction.a instruction.index, .strict⟩
      { walk with facts := walk.facts.declare declaration }
    else walk

/-- What a call returns has no name. -/
def markCalled (walk : Walk) : Walk :=
  { walk with anchor := walk.anchor.map fun anchor => { anchor with called := true } }

/-- What an instruction does once aliases are settled and a lost anchor is forgotten. -/
def act (survey : Survey) (role : Role) (instruction : Instruction) (ahead : List Instruction)
    (walk : Walk) : Walk :=
  match role with
  | .globalRead => walk.globalRead survey instruction ahead
  | .globalWrite => walk.globalWrite survey instruction
  | .tableRead => walk.tableRead instruction
  | .tableWrite => walk.tableWrite instruction
  | .upvalueRead => walk.upvalueRead instruction
  | .upvalueWrite => walk.upvalueWrite survey instruction
  | .call => walk.markCalled
  | _ => walk

/-- One instruction, with those behind it. -/
def step (survey : Survey) (instruction : Instruction) (ahead : List Instruction) (walk : Walk) :
    Walk :=
  let role := survey.role instruction
  let settled := (walk.settle (role == .call) instruction).forget role instruction
  { settled.act survey role instruction ahead with atStart := false }

/-- All instructions in order. -/
def run (survey : Survey) : List Instruction → Walk → Walk
  | [], walk => walk
  | instruction :: ahead, walk => run survey ahead (walk.step survey instruction ahead)

/-- The instruction that returns a single value at the end of a main function, if nothing jumps
past it. -/
def finalReturn? (survey : Survey) (code : List Instruction) : Option Instruction :=
  match code.reverse with
  | last :: result :: _ =>
    if survey.role last = .return ∧ last.b = some 1 ∧ survey.role result = .return ∧
        result.b = some 2 ∧ ¬ (code.any fun other => other.jumpTarget? == some last.index) then
      some result
    else none
  | _ => none

/-- The local that a main function returns at its end is the module. -/
def returnedModule (survey : Survey) (code : List Instruction) (walk : Walk) : Walk :=
  match finalReturn? survey code with
  | none => walk
  | some result =>
    match walk.promote result.a result.index none false with
    | (walk, some name) => { walk with facts := { walk.facts with returned := some name } }
    | (walk, none) => walk

end Walk

namespace Survey

/-- A function and the facts with what the function adds. -/
def function (survey : Survey) (isMain : Bool) (function : Function) (facts : Facts) :
    Function × Facts :=
  let start := Walk.start function.registers facts
  let begun := if isMain then start.returnedModule survey function.instructions else start
  let done := begun.run survey function.instructions
  ({ function with registers := done.registers }, done.facts)

/-- Functions in order; only the first can be the main one. -/
def functions (survey : Survey) : Bool → List Function → Facts → List Function × Facts
  | _, [], facts => ([], facts)
  | isFirst, function :: rest, facts =>
    let (done, facts) := survey.function (isFirst && function.isMain) function facts
    let (others, facts) := survey.functions false rest facts
    (done :: others, facts)

end Survey

namespace Listing

/-- The facts of a listing, and the listing with its aliases marked. -/
def survey (catalog : Catalog) (listing : Listing) : Listing × Facts :=
  let survey : Survey := ⟨listing.dialect, catalog⟩
  let (functions, facts) := survey.functions true listing.functions .empty
  ({ listing with functions }, facts)

/-- The facts of a listing. -/
def facts (catalog : Catalog) (listing : Listing) : Facts := (listing.survey catalog).2

end Listing

end GlobalAudit
