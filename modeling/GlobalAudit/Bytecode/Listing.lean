import GlobalAudit.Bytecode.Dialect
import GlobalAudit.Bytecode.Registers

/-! Bytecode listings. A listing is a sequence of functions; each has a header, its instructions and
sections for constants, locals and upvalues that say how many entries they hold. Reading goes line
by line and stops at the first line that is at fault. -/
namespace GlobalAudit

/-- The sections behind the instructions of a function. -/
inductive Section where
  | constants
  | locals
  | upvalues
  deriving DecidableEq, Repr

namespace Section

def name : Section → String
  | .constants => "constants"
  | .locals => "locals"
  | .upvalues => "upvalues"

/-- The count behind the name of the section in its header. -/
def count? (kind : Section) (line : List Char) : Option (Option Nat) :=
  (Text.after? (kind.name ++ " (") line).map fun rest =>
    (Text.cut? ')' rest).bind fun (count, _) => Text.readCount count

/-- The section that a line opens, and the number of entries it announces. -/
def ofHeader? (line : List Char) : Option (Section × Nat) :=
  [Section.constants, .locals, .upvalues].findSome? fun kind =>
    (kind.count? line).bind fun count => count.map fun expected => (kind, expected)

end Section

/-- Why a listing cannot be read. -/
inductive FaultCause where
  | instruction (fault : LineFault)
  | wrongDialect (opcode : Opcode) (dialect : Dialect)
  | outsideFunction
  | truncatedSection (kind : Section) (expected found : Nat)
  deriving DecidableEq, Repr

/-- A fault and the line of the listing it is found at. -/
structure Fault where
  line : Nat
  cause : FaultCause
  deriving DecidableEq, Repr

def LineFault.message : LineFault → String
  | .indexTooLarge => "malformed instruction: instruction index out of range"
  | .unclosedBracket => "malformed instruction: unterminated source line column"
  | .badSourceLine => "malformed instruction: source line is not a number"
  | .noOpcode => "malformed instruction: missing opcode"
  | .unknownOpcode name => s!"unknown opcode `{name}`"
  | .badOperand => "malformed instruction: operand is not an integer"
  | .operandCount => "malformed instruction: expected 1 to 3 operands"

def FaultCause.message : FaultCause → String
  | .instruction fault => fault.message
  | .wrongDialect opcode dialect => s!"opcode {opcode.name} does not exist in {dialect.name}"
  | .outsideFunction => "instruction outside of any function block"
  | .truncatedSection kind expected found =>
    s!"{kind.name} section declares {expected} entries, found {found}"

def Fault.message (fault : Fault) : String := s!"listing line {fault.line}: {fault.cause.message}"

structure Function where
  header : String
  instructions : List Instruction
  registers : Registers
  deriving Inhabited

namespace Function

/-- A function of which only the header is read. -/
def ofHeader (header : List Char) : Function := ⟨String.ofList header, [], .empty⟩

def isMain (function : Function) : Bool := (Text.after? "main <" function.header.toList).isSome

/-- The first and the last source line, which the header gives behind the file name. -/
def sourceLines? (function : Function) : Option (Nat × Nat) := do
  let (_, opened) ← Text.cut? '<' function.header.toList
  let (inside, _) ← Text.cut? '>' opened
  let (_, range) ← Text.cutLast? ':' inside
  let (first, last) ← Text.cut? ',' range
  some (← Text.readIndex first, ← Text.readIndex last)

def addInstruction (instruction : Instruction) (function : Function) : Function :=
  { function with instructions := function.instructions ++ [instruction] }

/-- Adds the entry of a section; one that cannot be read adds nothing. -/
def addEntry (kind : Section) (line : List Char) (function : Function) : Function :=
  match kind with
  | .constants => function
  | .locals =>
    match Registers.localEntry? line with
    | none => function
    | some (index, name, start, stop) =>
      { function with registers := function.registers.addLocal index name start stop }
  | .upvalues =>
    match Registers.upvalueEntry? line with
    | none => function
    | some (slot, name) => { function with registers := function.registers.addUpvalue slot name }

end Function

structure Listing where
  dialect : Dialect
  functions : List Function

namespace Listing

/-- Where a line of a listing stands. -/
inductive Place where
  | preamble
  | code
  | entries (kind : Section) (expected found : Nat)

/-- The functions read so far, the last one first, and the place of the next line. -/
structure Reader where
  functions : List Function
  place : Place

def Reader.start : Reader := ⟨[], .preamble⟩

/-- A section may only end when all its entries are there. -/
def closePlace (line : Nat) : Place → Except Fault Unit
  | .entries kind expected found =>
    if found < expected then .error ⟨line, .truncatedSection kind expected found⟩ else .ok ()
  | _ => .ok ()

def isHeader (line : List Char) : Bool :=
  (Text.after? "main <" line).isSome || (Text.after? "function <" line).isSome

/-- Whether a line is an entry of the section that is being read. -/
def isEntry (place : Place) (line : List Char) : Bool :=
  match place with
  | .entries _ expected found => found < expected && line.head?.any Char.isDigit
  | _ => false

/-- A line that may hold an instruction. -/
def Reader.code (dialect : Dialect) (reader : Reader) (line : List Char) (number : Nat) :
    Except Fault Reader :=
  match Instruction.ofLine line with
  | .error fault => .error ⟨number, .instruction fault⟩
  | .ok none => .ok reader
  | .ok (some instruction) =>
    match reader.place, reader.functions with
    | .code, current :: earlier =>
      if (dialect.role? instruction.opcode).isNone then
        .error ⟨number, .wrongDialect instruction.opcode dialect⟩
      else .ok ⟨current.addInstruction instruction :: earlier, .code⟩
    | _, _ => .error ⟨number, .outsideFunction⟩

/-- The next line, with its number. -/
def Reader.step (dialect : Dialect) (reader : Reader) (numbered : List Char × Nat) :
    Except Fault Reader :=
  let (line, number) := numbered
  let inner := Text.trim line
  if isHeader inner then
    (closePlace number reader.place).map fun _ => ⟨.ofHeader inner :: reader.functions, .code⟩
  else match Section.ofHeader? inner with
    | some (kind, expected) =>
      (closePlace number reader.place).map fun _ => ⟨reader.functions, .entries kind expected 0⟩
    | none =>
      match reader.place with
      | .entries kind expected found =>
        if isEntry reader.place inner then
          .ok ⟨reader.functions.modifyHead (Function.addEntry kind inner),
            .entries kind expected (found + 1)⟩
        else reader.code dialect line number
      | _ => reader.code dialect line number

/-- The listing in a text. -/
def parse (dialect : Dialect) (text : String) : Except Fault Listing := do
  let lines := Text.lines text.toList
  let reader ← (lines.zipIdx 1).foldlM (Reader.step dialect) Reader.start
  closePlace (lines.length + 1) reader.place
  return ⟨dialect, reader.functions.reverse⟩

/-- The main function, which comes first. -/
def main? (listing : Listing) : Option Function := listing.functions.head?.filter Function.isMain

def instructionCount (listing : Listing) : Nat :=
  listing.functions.foldl (fun count function => count + function.instructions.length) 0

end Listing

end GlobalAudit
