import GlobalAudit.Bytecode.Opcode
import GlobalAudit.Bytecode.Remark
import GlobalAudit.Text.Basic

/-! Instructions and the lines that hold them. A line is an index, the source line in brackets, a
mnemonic, one to three operands and an optional comment:

    1 [3] GETTABLE 0 0 -2 ; "find"

A line that does not start with an index and a bracket holds no instruction; one that does has to be
complete. -/
namespace GlobalAudit

structure Instruction where
  /-- The position in the function, counted from one. -/
  index : Nat
  /-- The source line, zero where the listing does not know it. -/
  line : Nat
  opcode : Opcode
  a : Int
  b : Option Int
  c : Option Int
  comment : Option String
  deriving DecidableEq, Repr

namespace Instruction

def remarks (instruction : Instruction) : List Remark :=
  match instruction.comment with
  | none => []
  | some comment => Remark.ofComment comment.toList

/-- The string constant that the comment starts with: what is loaded, or the key of a table. -/
def constant? (instruction : Instruction) : Option String :=
  match instruction.remarks with
  | .text value :: _ => some value
  | _ => none

/-- The bare word that the comment starts with, the name of an upvalue. -/
def upvalue? (instruction : Instruction) : Option String :=
  match instruction.remarks with
  | .word value :: _ => some value
  | _ => none

/-- The index that a jump goes to. -/
def jumpTarget? (instruction : Instruction) : Option Nat :=
  match instruction.remarks with
  | .word "to" :: .word target :: _ => Text.readIndex target.toList
  | _ => none

end Instruction

/-- What is wrong with an instruction line. -/
inductive LineFault where
  | indexTooLarge
  | unclosedBracket
  | badSourceLine
  | noOpcode
  | unknownOpcode (name : String)
  | badOperand
  | operandCount
  deriving DecidableEq, Repr

namespace Instruction

/-- The columns of an instruction line: its index, and what follows the opening bracket. -/
def columns? (line : List Char) : Option (List Char × List Char) :=
  let text := Text.trimStart line
  let digits := text.takeWhile Char.isDigit
  let behind := text.dropWhile Char.isDigit
  match digits, behind, Text.trimStart behind with
  | [], _, _ => none
  | _, gap :: _, '[' :: rest => if Text.isBlank gap then some (digits, rest) else none
  | _, _, _ => none

/-- The source line between the brackets. -/
def sourceLine? (text : List Char) : Option Nat :=
  if text = ['-'] then some 0 else Text.readIndex text

/-- An instruction from its index, source line, body and comment. -/
def ofBody (index line : Nat) (body : List Char) (comment : Option String) :
    Except LineFault Instruction :=
  match Text.words body with
  | [] => .error .noOpcode
  | mnemonic :: operands =>
    match Opcode.ofName? (String.ofList mnemonic) with
    | none => .error (.unknownOpcode (String.ofList mnemonic))
    | some opcode =>
      match operands.mapM Text.readOperand with
      | none => .error .badOperand
      | some [a] => .ok ⟨index, line, opcode, a, none, none, comment⟩
      | some [a, b] => .ok ⟨index, line, opcode, a, some b, none, comment⟩
      | some [a, b, c] => .ok ⟨index, line, opcode, a, some b, some c, comment⟩
      | some _ => .error .operandCount

/-- The body before the first semicolon and the trimmed comment behind it, if there is any. -/
def splitComment (text : List Char) : List Char × Option String :=
  match Text.cut? ';' text with
  | none => (text, none)
  | some (body, comment) =>
    let inner := Text.trim comment
    (body, if inner.isEmpty then none else some (String.ofList inner))

/-- The instruction from its columns. -/
def ofColumns (digits rest : List Char) : Except LineFault Instruction :=
  match Text.readIndex digits with
  | none => .error .indexTooLarge
  | some index =>
    match Text.cut? ']' rest with
    | none => .error .unclosedBracket
    | some (inside, behind) =>
      match sourceLine? inside with
      | none => .error .badSourceLine
      | some line =>
        let (body, comment) := splitComment behind
        ofBody index line body comment

/-- The instruction on a line, if the line holds one. -/
def ofLine (line : List Char) : Except LineFault (Option Instruction) :=
  match columns? line with
  | none => .ok none
  | some (digits, rest) => (ofColumns digits rest).map some

end Instruction

end GlobalAudit
