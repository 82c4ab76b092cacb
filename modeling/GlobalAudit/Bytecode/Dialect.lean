import GlobalAudit.Bytecode.Instruction

/-! The two instruction sets. Lua 5.1 has instructions for globals, and the comment is the name.
In Lua 5.2 a global is a field of the upvalue that stands for the environment, and the comment has
the upvalue and then the field; the same instructions also reach fields of other upvalues. -/
namespace GlobalAudit

inductive Dialect where
  | lua51
  | lua52
  deriving DecidableEq, Repr

/-- The name operand of an instruction that reaches a global. -/
inductive GlobalTarget where
  | global (name : String)
  | field (upvalue name : String)
  deriving DecidableEq, Repr

namespace Dialect

def name : Dialect → String
  | .lua51 => "Lua 5.1"
  | .lua52 => "Lua 5.2"

/-- The upvalue that stands for the global environment. -/
def environment? : Dialect → Option String
  | .lua51 => none
  | .lua52 => some "_ENV"

/-- The role of opcodes that both dialects share. -/
def sharedRole : Opcode → Role
  | .getUpval => .upvalueRead
  | .setUpval => .upvalueWrite
  | .getTable => .tableRead
  | .self => .tableRead
  | .setTable => .tableWrite
  | .call => .call
  | .tailCall => .call
  | .loadK => .loadConstant
  | .vararg => .vararg
  | .return => .return
  | _ => .other

/-- The role of an opcode, none for one that the dialect does not have. -/
def role? : Dialect → Opcode → Option Role
  | .lua51, .getTabUp => none
  | .lua51, .setTabUp => none
  | .lua51, .loadKX => none
  | .lua51, .tforCall => none
  | .lua51, .extraArg => none
  | .lua51, .getGlobal => some .globalRead
  | .lua51, .setGlobal => some .globalWrite
  | .lua52, .getGlobal => none
  | .lua52, .setGlobal => none
  | .lua52, .close => none
  | .lua52, .getTabUp => some .globalRead
  | .lua52, .setTabUp => some .globalWrite
  | _, opcode => some (sharedRole opcode)

/-- The global or field that an instruction names. A key that is no constant has no name. -/
def target? (dialect : Dialect) (instruction : Instruction) : Option GlobalTarget :=
  match dialect, instruction.remarks with
  | .lua51, .word name :: _ => some (.global name)
  | .lua52, .word upvalue :: .text name :: _ =>
    if upvalue = "_ENV" then some (.global name) else some (.field upvalue name)
  | _, _ => none

/-- The dialect of a version: `5.1`, `51`, `lua5.2`, or the banner of an interpreter. -/
def ofVersion? (text : String) : Option Dialect :=
  let lower := (Text.trim text.toList).map Char.toLower
  let version := match Text.after? "lua" lower with
    | some rest => Text.trimStart rest
    | none => lower
  if (Text.after? "5.1" version).isSome || version == ['5', '1'] then some .lua51
  else if (Text.after? "5.2" version).isSome || version == ['5', '2'] then some .lua52
  else none

end Dialect

end GlobalAudit
