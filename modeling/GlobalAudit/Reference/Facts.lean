import GlobalAudit.Bytecode.Registers

/-! What a file says about globals: the names it reads and writes, the modules it requires, whether
it declares itself a module, and which of its locals stand for dotted names. -/
namespace GlobalAudit

/-- The name of the function that loads modules. -/
def requireName : String := "require"

/-- The name of the function that declares modules. -/
def moduleName : String := "module"

/-- Writing this global ends the definitions of globals. -/
def endOfGlobalsName : String := "_END_GLOBALS"

/-- One access to a global or to a field below one. -/
structure Reference where
  line : Nat
  name : String
  isWrite : Bool
  deriving DecidableEq, Repr

/-- A required module and the local that receives it. -/
structure Require where
  line : Nat
  name : String
  receiver : Option String
  deriving DecidableEq, Repr

/-- How a module sees the globals outside it. -/
inductive ModuleMode where
  /-- Only its own names are visible behind the declaration. -/
  | strict
  /-- The globals outside stay visible. -/
  | «open»
  deriving DecidableEq, Repr

def ModuleMode.name : ModuleMode → String
  | .strict => "strict"
  | .open => "open"

structure ModuleDeclaration where
  line : Nat
  name : Option String
  mode : ModuleMode
  deriving DecidableEq, Repr

structure Facts where
  references : List Reference
  requires : List Require
  declaration : Option ModuleDeclaration
  /-- The local that the main function returns as the module. -/
  returned : Option String
  /-- The line that ends the definitions of globals. -/
  endOfGlobals : Option Nat
  aliases : List Alias
  deriving DecidableEq, Repr

namespace Facts

def empty : Facts := ⟨[], [], none, none, none, []⟩

def addReference (line : Nat) (name : String) (isWrite : Bool) (facts : Facts) : Facts :=
  { facts with references := facts.references ++ [⟨line, name, isWrite⟩] }

def addRequire (line : Nat) (name : String) (receiver : Option String) (facts : Facts) : Facts :=
  { facts with requires := facts.requires ++ [⟨line, name, receiver⟩] }

def addAlias (entry : Alias) (facts : Facts) : Facts :=
  { facts with aliases := facts.aliases ++ [entry] }

/-- Only the first declaration counts. -/
def declare (declaration : ModuleDeclaration) (facts : Facts) : Facts :=
  { facts with declaration := facts.declaration.or (some declaration) }

/-- Only the first end of the globals counts. -/
def markEnd (line : Nat) (facts : Facts) : Facts :=
  { facts with endOfGlobals := facts.endOfGlobals.or (some line) }

end Facts

end GlobalAudit
