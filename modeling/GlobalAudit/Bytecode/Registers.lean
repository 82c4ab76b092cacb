import GlobalAudit.Text.Basic
import Std.Data.TreeMap

/-! The local variables and upvalues of a function. The listing gives the instructions between
which a local is alive, in order of declaration, but not its register. Since registers are taken as
a stack, a local sits in the register numbered by the earlier locals alive at its start. -/
namespace GlobalAudit

structure LocalVariable where
  /-- The register. -/
  slot : Nat
  /-- The number in the order of declaration, as listed. -/
  index : Nat
  name : String
  /-- The first instruction at which the variable is declared. -/
  start : Nat
  /-- The instruction at which it is no longer declared. -/
  stop : Nat
  /-- The dotted name that the variable is known to stand for. -/
  target : Option String
  deriving DecidableEq, Repr

namespace LocalVariable

/-- One instruction before the start, where the value is usually put into the register. -/
def liveFrom (var : LocalVariable) : Nat := var.start - 1

def liveTo (var : LocalVariable) : Nat := var.stop

/-- Names in parentheses belong to the compiler. -/
def isInternal (var : LocalVariable) : Bool := var.name.toList.head? == some '('

def isDeclaredAt (index : Nat) (var : LocalVariable) : Bool :=
  var.start ≤ index && index < var.stop

/-- Declared at the index, or one instruction around that. -/
def isLiveAt (index : Nat) (var : LocalVariable) : Bool :=
  var.liveFrom ≤ index && index ≤ var.liveTo

/-- The name under which fields of the variable are reported. -/
def referenceName (var : LocalVariable) : String := var.target.getD var.name

/-- The variable with a target, its own name unless another is given. -/
def promoted (target : Option String) (var : LocalVariable) : LocalVariable :=
  { var with target := some (target.getD var.name) }

end LocalVariable

structure Upvalue where
  slot : Nat
  name : String
  deriving DecidableEq, Repr

/-- A local variable that stands for a dotted name from here to the end of the file. -/
structure Alias where
  name : String
  target : String
  deriving DecidableEq, Repr

/-- The most recent alias of that name, of aliases in order of their making. -/
def Alias.find? (name : String) (aliases : List Alias) : Option Alias :=
  aliases.reverse.find? fun entry => entry.name == name

def LocalVariable.asAlias (var : LocalVariable) : Alias := ⟨var.name, var.referenceName⟩

/-- The variables of one function, with the positions of those in each register. -/
structure Registers where
  locals : List LocalVariable
  bySlot : Std.TreeMap Nat (List Nat)
  upvalues : List Upvalue

namespace Registers

def empty : Registers := ⟨[], ∅, []⟩

instance : Inhabited Registers := ⟨empty⟩

/-- The register of a local that starts at `start`. -/
def slotAt (start : Nat) (registers : Registers) : Nat :=
  (registers.locals.filter (LocalVariable.isDeclaredAt start)).length

/-- Adds a local; locals come in order of declaration. -/
def addLocal (index : Nat) (name : String) (start stop : Nat) (registers : Registers) : Registers :=
  let slot := registers.slotAt start
  let position := registers.locals.length
  { registers with
    locals := registers.locals ++ [⟨slot, index, name, start, stop, none⟩]
    bySlot := registers.bySlot.insert slot ((registers.bySlot.getD slot []) ++ [position]) }

def addUpvalue (slot : Nat) (name : String) (registers : Registers) : Registers :=
  { registers with upvalues := registers.upvalues ++ [⟨slot, name⟩] }

/-- The locals of a register that the source names, with their positions. -/
def candidates (slot : Nat) (registers : Registers) : List (Nat × LocalVariable) :=
  ((registers.bySlot.getD slot []).filterMap fun position =>
    registers.locals[position]?.map fun var => (position, var)).filter
      fun candidate => !candidate.2.isInternal

/-- Of candidates in order, the last among those with the latest first instruction. -/
def latest? (candidates : List (Nat × LocalVariable)) : Option (Nat × LocalVariable) :=
  candidates.foldl (fun best candidate =>
    match best with
    | none => some candidate
    | some kept => if kept.2.liveFrom ≤ candidate.2.liveFrom then some candidate else best) none

/-- The position of the local that a register holds at an instruction. One that is declared there
comes before one that is only live around it. Before the first instruction of a function has run,
its parameters are there already, so only the end of a local counts. -/
def find? (slot index : Nat) (atStart : Bool) (registers : Registers) : Option Nat :=
  let candidates := registers.candidates slot
  if atStart then
    (candidates.find? fun candidate => index ≤ candidate.2.liveTo).map Prod.fst
  else
    match candidates.find? fun candidate => candidate.2.isDeclaredAt index with
    | some candidate => some candidate.1
    | none => (latest? (candidates.filter fun candidate => candidate.2.isLiveAt index)).map Prod.fst

/-- The upvalue with a number. -/
def upvalue? (slot : Nat) (registers : Registers) : Option Upvalue :=
  registers.upvalues.find? fun upvalue => upvalue.slot == slot

/-- The local at a position made to stand for a name, its own unless another is given. -/
def promote (position : Nat) (target : Option String) (registers : Registers) : Registers :=
  { registers with locals := registers.locals.modify position (LocalVariable.promoted target) }

/-- The local on a line of a listing: its number, its name, which may hold blanks, and its
bounds. -/
def localEntry? (line : List Char) : Option (Nat × String × Nat × Nat) :=
  match Text.words line with
  | first :: rest =>
    match rest.reverse with
    | stop :: start :: name =>
      if name.isEmpty then none
      else do
        let index ← Text.readIndex first
        let stop ← Text.readIndex stop
        let start ← Text.readIndex start
        some (index, " ".intercalate (name.reverse.map String.ofList), start, stop)
    | _ => none
  | [] => none

/-- The number and the name of an upvalue on a line of a listing. -/
def upvalueEntry? (line : List Char) : Option (Nat × String) :=
  match Text.words line with
  | slot :: name :: _ => (Text.readIndex slot).map fun slot => (slot, String.ofList name)
  | _ => none

end Registers

end GlobalAudit
