import GlobalAudit.Catalog.Basic

/-! Where the exports of required modules come from. An audit asks a loader, whichever it is. The
loader of a run is a list of sources, which are asked in order until one knows the module. A source is
a catalog of declared modules, or an interpreter whose answers are remembered, so that it is run once
for each module. -/
namespace GlobalAudit

/-- A global that appears when a module is loaded. -/
structure NewGlobal where
  name : String
  /-- It holds what the module returns. -/
  isModule : Bool
  deriving DecidableEq, Repr

structure LoadedModule where
  exports : Shape
  newGlobals : List NewGlobal

inductive LoadError where
  | notFound (name : String)
  | failed (name reason : String)
  deriving DecidableEq, Repr

def LoadError.message : LoadError → String
  | .notFound name => s!"module '{name}' not found"
  | .failed name reason => s!"module '{name}' failed to load: {reason}"

abbrev LoadAnswer := Except LoadError LoadedModule

/-- What is asked for modules, one after the other. It may change with every request, and an answer
may depend on what was asked before. -/
class Loader (σ : Type) where
  load : String → σ → LoadAnswer × σ

/-- A loader whose answers, failures included, are remembered. -/
structure Remembering (σ : Type) where
  loader : σ
  answers : Fields LoadAnswer

namespace Remembering

variable {σ : Type} [Loader σ]

/-- The loader is asked only about what is not remembered. -/
def load (name : String) (memory : Remembering σ) : LoadAnswer × Remembering σ :=
  match Fields.get? name memory.answers with
  | some answer => (answer, memory)
  | none =>
    let (answer, loader) := Loader.load name memory.loader
    (answer, ⟨loader, memory.answers ++ [(name, answer)]⟩)

instance : Loader (Remembering σ) := ⟨load⟩

end Remembering

/-- A program that tells about modules, with a record of the modules for which it was run. -/
structure Interpreter where
  probe : String → LoadAnswer
  runs : List String

/-- One run, which goes on record. -/
def Interpreter.run (name : String) (program : Interpreter) : LoadAnswer × Interpreter :=
  (program.probe name, { program with runs := program.runs ++ [name] })

instance : Loader Interpreter := ⟨Interpreter.run⟩

inductive Source where
  | declared (modules : Catalog)
  | interpreter (program : Remembering Interpreter)

namespace Source

/-- An interpreter that has not been run. -/
def ofProbe (probe : String → LoadAnswer) : Source := .interpreter ⟨⟨probe, []⟩, []⟩

/-- The answer for a module, and the source that remembers it. -/
def load (name : String) : Source → LoadAnswer × Source
  | .declared modules =>
    match modules.find? name with
    | some exports => (.ok ⟨exports, []⟩, .declared modules)
    | none => (.error (.notFound name), .declared modules)
  | .interpreter program =>
    let (answer, program) := program.load name
    (answer, .interpreter program)

/-- The modules for which an interpreter was run, in order. -/
def runs : Source → List String
  | .declared _ => []
  | .interpreter program => program.loader.runs

/-- The first answer other than that the module is not found. -/
def loadFirst (name : String) : List Source → LoadAnswer × List Source
  | [] => (.error (.notFound name), [])
  | source :: rest =>
    match source.load name with
    | (.error (.notFound _), source) =>
      let (answer, rest) := loadFirst name rest
      (answer, source :: rest)
    | (answer, source) => (answer, source :: rest)

instance : Loader (List Source) := ⟨loadFirst⟩

end Source

end GlobalAudit
