/-! The mnemonics of Lua 5.1 and Lua 5.2 bytecode, and the roles that instructions play for the
audit. -/
namespace GlobalAudit

inductive Opcode where
  | move
  | loadK
  | loadKX
  | loadBool
  | loadNil
  | getUpval
  | getGlobal
  | getTabUp
  | getTable
  | setGlobal
  | setTabUp
  | setUpval
  | setTable
  | newTable
  | self
  | add
  | sub
  | mul
  | div
  | mod
  | pow
  | unm
  | not
  | len
  | concat
  | jmp
  | eq
  | lt
  | le
  | test
  | testSet
  | call
  | tailCall
  | return
  | forLoop
  | forPrep
  | tforCall
  | tforLoop
  | setList
  | close
  | closure
  | vararg
  | extraArg
  deriving DecidableEq, Repr

namespace Opcode

def all : List Opcode :=
  [.move, .loadK, .loadKX, .loadBool, .loadNil, .getUpval, .getGlobal, .getTabUp, .getTable,
   .setGlobal, .setTabUp, .setUpval, .setTable, .newTable, .self, .add, .sub, .mul, .div, .mod, .pow,
   .unm, .not, .len, .concat, .jmp, .eq, .lt, .le, .test, .testSet, .call, .tailCall, .return,
   .forLoop, .forPrep, .tforCall, .tforLoop, .setList, .close, .closure, .vararg, .extraArg]

/-- The mnemonic in a listing. -/
def name : Opcode → String
  | .move => "MOVE"
  | .loadK => "LOADK"
  | .loadKX => "LOADKX"
  | .loadBool => "LOADBOOL"
  | .loadNil => "LOADNIL"
  | .getUpval => "GETUPVAL"
  | .getGlobal => "GETGLOBAL"
  | .getTabUp => "GETTABUP"
  | .getTable => "GETTABLE"
  | .setGlobal => "SETGLOBAL"
  | .setTabUp => "SETTABUP"
  | .setUpval => "SETUPVAL"
  | .setTable => "SETTABLE"
  | .newTable => "NEWTABLE"
  | .self => "SELF"
  | .add => "ADD"
  | .sub => "SUB"
  | .mul => "MUL"
  | .div => "DIV"
  | .mod => "MOD"
  | .pow => "POW"
  | .unm => "UNM"
  | .not => "NOT"
  | .len => "LEN"
  | .concat => "CONCAT"
  | .jmp => "JMP"
  | .eq => "EQ"
  | .lt => "LT"
  | .le => "LE"
  | .test => "TEST"
  | .testSet => "TESTSET"
  | .call => "CALL"
  | .tailCall => "TAILCALL"
  | .return => "RETURN"
  | .forLoop => "FORLOOP"
  | .forPrep => "FORPREP"
  | .tforCall => "TFORCALL"
  | .tforLoop => "TFORLOOP"
  | .setList => "SETLIST"
  | .close => "CLOSE"
  | .closure => "CLOSURE"
  | .vararg => "VARARG"
  | .extraArg => "EXTRAARG"

def ofName? (name : String) : Option Opcode := all.find? fun opcode => opcode.name == name

theorem ofName?_name (opcode : Opcode) : ofName? opcode.name = some opcode := by
  cases opcode <;> rfl

theorem name_of_ofName? {name : String} {opcode : Opcode} (h : ofName? name = some opcode) :
    opcode.name = name := by
  have found := List.find?_some h
  simpa using found

end Opcode

/-- What an instruction does, as far as the audit cares. -/
inductive Role where
  /-- Loads a global, or a field of an upvalue, into register A. -/
  | globalRead
  /-- Stores into a global or a field of an upvalue. -/
  | globalWrite
  | upvalueRead
  | upvalueWrite
  /-- Loads a field of the table in register B into register A. -/
  | tableRead
  /-- Stores into a field of the table in register A. -/
  | tableWrite
  | call
  | loadConstant
  | vararg
  | return
  | other
  deriving DecidableEq, Repr

namespace Role

def name : Role → String
  | .globalRead => "GlobalRead"
  | .globalWrite => "GlobalWrite"
  | .upvalueRead => "UpvalueRead"
  | .upvalueWrite => "UpvalueWrite"
  | .tableRead => "TableRead"
  | .tableWrite => "TableWrite"
  | .call => "Call"
  | .loadConstant => "LoadConstant"
  | .vararg => "VarArg"
  | .return => "Return"
  | .other => "Other"

end Role

end GlobalAudit
