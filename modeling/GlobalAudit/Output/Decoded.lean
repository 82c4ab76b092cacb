import GlobalAudit.Bytecode.Listing
import GlobalAudit.Output.Report

/-! The instructions of a range of source lines with their roles. -/
namespace GlobalAudit

namespace Instruction

/-- The members of an instruction as JSON; a missing comment is left out. -/
def members (instruction : Instruction) : List (String × Json) :=
  [("index", .ofNat instruction.index), ("line", .ofNat instruction.line),
    ("op", .string instruction.opcode.name), ("a", .ofInt instruction.a),
    ("b", .ofOption .ofInt instruction.b), ("c", .ofOption .ofInt instruction.c)] ++
  (instruction.comment.map fun comment => ("comment", Json.string comment)).toList

def toJson (instruction : Instruction) : Json := .object instruction.members

/-- An instruction with its role in a dialect. -/
def decodedJson (dialect : Dialect) (instruction : Instruction) : Json :=
  .object (instruction.members ++
    [("kind", .ofOption (fun role => .string role.name) (dialect.role? instruction.opcode))])

def decodedText (dialect : Dialect) (instruction : Instruction) : String :=
  let operands := (instruction.b.toList ++ instruction.c.toList).map fun operand => s!" {operand}"
  let comment := match instruction.comment with
    | some comment => s!" ; {comment}"
    | none => ""
  let role := match dialect.role? instruction.opcode with
    | some role => role.name
    | none => "?"
  s!"  {Text.padStart 4 (toString instruction.index)} [{instruction.line}] {instruction.opcode.name} " ++
    s!"{instruction.a}{String.join operands}{comment}  ({role})"

end Instruction

namespace Listing

/-- The functions with instructions from a range of lines, and those instructions. -/
def within (first last : Nat) (listing : Listing) : List (Function × List Instruction) :=
  (listing.functions.map fun function =>
    (function, function.instructions.filter fun instruction =>
      first ≤ instruction.line && instruction.line ≤ last)).filter
        fun (_, selected) => !selected.isEmpty

/-- The instructions of a range of lines as text. -/
def linesText (path : String) (first last : Nat) (listing : Listing) : String :=
  Text.unlines ((listing.within first last).flatMap fun (function, selected) =>
    s!"{path}: {function.header}" :: selected.map (Instruction.decodedText listing.dialect))

/-- The instructions of a range of lines as JSON. -/
def linesJson (path : String) (first last : Nat) (listing : Listing) : Json :=
  .object [("file", .string path),
    ("functions", .array ((listing.within first last).map fun (function, selected) =>
      .object [("header", .string function.header),
        ("instructions", .array (selected.map (Instruction.decodedJson listing.dialect)))]))]

end Listing

end GlobalAudit
