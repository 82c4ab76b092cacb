import GlobalAudit.Audit.Verdict
import GlobalAudit.Text.Basic
import GlobalAudit.Visibility

/-! The names that a file brings into view: locals that receive modules, globals that modules define,
the fields of the module it returns, the exports of an open module and the globals defined before
their end is marked. All go into one layer over the catalog, so nothing of a file reaches the next
one. -/
namespace GlobalAudit

/-- How strict an audit is. -/
structure Policy where
  /-- Accesses are not judged. -/
  tolerant : Bool
  /-- The exports of required modules are looked up. -/
  resolve : Bool
  deriving DecidableEq, Repr

inductive PolicyError where
  | tolerantWithoutResolution
  deriving DecidableEq, Repr

def PolicyError.message : PolicyError → String
  | .tolerantWithoutResolution => "tolerant mode needs require resolution (-l)"

/-- Without looking up modules there is nothing left to tolerate. -/
def Policy.validate (policy : Policy) : Except PolicyError Policy :=
  if policy.tolerant && !policy.resolve then .error .tolerantWithoutResolution else .ok policy

/-- The globals that every module has. -/
def moduleFields : List String := ["_M", "_NAME", "_PACKAGE"]

/-- The undotted names that are written on certain lines, each once, in order of their first
write. -/
def Facts.rootWrites (onLine : Nat → Bool) (facts : Facts) : List String :=
  ((facts.references.filter fun reference =>
    reference.isWrite && onLine reference.line && !Dotted.isDotted reference.name).map
      Reference.name).eraseDups

namespace Audit

variable {σ : Type}

/-- What the requires of a file have led to so far. -/
structure Loading (σ : Type) where
  scope : Visibility
  warnings : List Warning
  /-- What modules are loaded from. -/
  sources : σ

/-- Loading `a.b` may define the global `a`, and loading `a` may define `a` as the module itself. -/
def isAllowed (required : String) (global : NewGlobal) : Bool :=
  global.name == Dotted.root required && (global.isModule || Dotted.isDotted required)

/-- The fields that a visible table of that name has. -/
def visibleFields (name : String) (scope : Visibility) : Fields Shape :=
  match scope.lookup name with
  | some shape => shape.fields
  | none => []

/-- The global that a module may define: the module itself, or a table with the module below it. -/
def defineGlobal (required : String) (exports : Shape) (global : NewGlobal) (scope : Visibility) :
    Visibility :=
  if global.isModule then scope.define global.name exports
  else
    let fields := visibleFields global.name scope
    match Text.cut? '.' required.toList with
    | some (_, rest) =>
      scope.define global.name (.table (Shape.putPath (String.ofList rest) exports fields))
    | none => scope.define global.name (.table fields)

/-- A global that appeared with a required module. -/
def addGlobal (require : Require) (exports : Shape) (loading : Loading σ) (global : NewGlobal) :
    Loading σ :=
  if isAllowed require.name global then
    { loading with scope := defineGlobal require.name exports global loading.scope }
  else
    { loading with
      warnings := loading.warnings ++ [.pollution require.line require.name global.name] }

/-- The receiving local, if there is one, holds a shape. -/
def defineReceiver (require : Require) (shape : Shape) (scope : Visibility) : Visibility :=
  match require.receiver with
  | some name => scope.define name shape
  | none => scope

variable [Loader σ]

/-- The exports of a required module, from the catalog or else from the sources. -/
def loadRequired (catalog : Catalog) (name : String) (sources : σ) : LoadAnswer × σ :=
  match catalog.find? name with
  | some shape =>
    if shape.isTableLike then (.ok ⟨shape, []⟩, sources) else Loader.load name sources
  | none => Loader.load name sources

/-- One require. Without resolution nothing is known of what the local receives. -/
def addRequire (catalog : Catalog) (policy : Policy) (loading : Loading σ) (require : Require) :
    Loading σ :=
  if policy.resolve then
    match loadRequired catalog require.name loading.sources with
    | (.error reason, sources) =>
      { loading with
        sources
        warnings := loading.warnings ++ [.unresolved require.line require.name reason] }
    | (.ok loaded, sources) =>
      let loading :=
        loaded.newGlobals.foldl (addGlobal require loaded.exports) { loading with sources }
      { loading with scope := defineReceiver require loaded.exports loading.scope }
  else { loading with scope := defineReceiver require .own loading.scope }

/-- All requires of a file, over a fresh layer. -/
def addRequires (catalog : Catalog) (policy : Policy) (facts : Facts) (sources : σ) :
    Loading σ :=
  facts.requires.foldl (addRequire catalog policy)
    ⟨(Visibility.ofCatalog catalog).pushLayer, [], sources⟩

/-- A written name below the returned module makes its first field an own name. A field that is
written itself is replaced, one that is only on the way is left as it is. -/
def addModuleField (name : String) (fields : Fields Shape) (reference : Reference) : Fields Shape :=
  if reference.isWrite then
    match Text.after? (name ++ ".") reference.name.toList with
    | none => fields
    | some rest =>
      match Text.cut? '.' rest with
      | none => Fields.put (String.ofList rest) .own fields
      | some (field, _) => Fields.putNew (String.ofList field) .own fields
  else fields

/-- The module that the main function returns has the fields that the file writes anywhere. -/
def addReturned (facts : Facts) (scope : Visibility) : Visibility :=
  match facts.returned with
  | none => scope
  | some name =>
    scope.define name
      (.table (facts.references.foldl (addModuleField name) (visibleFields name scope)))

/-- In an open module all that the file writes is an export. -/
def addOpenModule (facts : Facts) (scope : Visibility) : Visibility :=
  match facts.declaration with
  | some ⟨_, name, .open⟩ =>
    let exports := facts.rootWrites (fun _ => true) ++ moduleFields
    let scope := exports.foldl (fun scope name => scope.define name .own) scope
    match name with
    | some name => scope.defineNew (Dotted.root name) .own
    | none => scope
  | _ => scope

/-- What is written before the end of the globals is defined. -/
def addEarlyGlobals (facts : Facts) (scope : Visibility) : Visibility :=
  match facts.endOfGlobals with
  | none => scope
  | some marker =>
    (facts.rootWrites (· < marker)).foldl (fun scope name => scope.defineNew name .own) scope

/-- Everything a file brings into view. -/
def definitions (facts : Facts) (scope : Visibility) : Visibility :=
  addEarlyGlobals facts (addOpenModule facts (addReturned facts scope))

/-- What is visible behind a strict declaration: the definitions of the file, the globals written
from the declaration on, the fields of modules, and the declaring function itself. -/
def strictEntries (facts : Facts) (line : Nat) (scope : Visibility) : Fields Shape :=
  let written := facts.rootWrites (line ≤ ·) ++ moduleFields
  let entries := written.foldl (fun entries name => Fields.putNew name .own entries) scope.tip
  match scope.lookup moduleName with
  | some shape => Fields.putNew moduleName shape entries
  | none => entries

end Audit

end GlobalAudit
