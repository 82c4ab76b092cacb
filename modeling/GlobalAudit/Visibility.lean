import GlobalAudit.Catalog.Basic

/-! Which names are visible at a place in a file. Layers of definitions lie over a catalog; a name
is looked up from the innermost layer outward, and nothing behind a barrier is seen. A dotted name
is then resolved segment by segment. -/
namespace GlobalAudit

structure Layer where
  entries : Fields Shape
  /-- A barrier hides everything outside its layer. -/
  barrier : Bool

/-- The layers over a catalog, the innermost first. -/
structure Visibility where
  base : Catalog
  layers : List Layer

/-- What becomes of a dotted name. -/
inductive Resolution where
  /-- The whole name leads to this shape. -/
  | defined (shape : Shape)
  /-- The name goes beyond what is known of this shape. -/
  | beyond (shape : Shape)
  /-- The shortest part of the name, from its start, that leads nowhere. -/
  | undefined (missing : String)

/-- Resolves the remaining segments, `walked` being the name that led to the shape. -/
def Shape.resolve (walked : String) : List String → Shape → Resolution
  | [], shape => .defined shape
  | segment :: rest, shape =>
    match shape with
    | .table fields =>
      match Fields.get? segment fields with
      | some inner => Shape.resolve (Dotted.extend walked segment) rest inner
      | none => if rest.isEmpty then .beyond shape else .undefined (Dotted.extend walked segment)
    | _ => .beyond shape

namespace Visibility

/-- A catalog with no layers over it. -/
def ofCatalog (base : Catalog) : Visibility := ⟨base, []⟩

def pushLayer (scope : Visibility) : Visibility := { scope with layers := ⟨[], false⟩ :: scope.layers }

/-- A layer of exactly these entries that hides everything outside it. -/
def pushBarrier (entries : Fields Shape) (scope : Visibility) : Visibility :=
  { scope with layers := ⟨entries, true⟩ :: scope.layers }

def popLayer (scope : Visibility) : Visibility := { scope with layers := scope.layers.tail }

def depth (scope : Visibility) : Nat := scope.layers.length

/-- A definition in the innermost layer, which is made if there is none. -/
def define (name : String) (shape : Shape) (scope : Visibility) : Visibility :=
  match scope.layers with
  | [] => { scope with layers := [⟨[(name, shape)], false⟩] }
  | layer :: outer =>
    { scope with layers := { layer with entries := Fields.put name shape layer.entries } :: outer }

/-- The entries of the innermost layer. -/
def tip (scope : Visibility) : Fields Shape :=
  match scope.layers with
  | [] => []
  | layer :: _ => layer.entries

/-- The binding of a name in layers over a catalog. -/
def lookupIn (base : Catalog) (name : String) : List Layer → Option Shape
  | [] => base.get? name
  | layer :: outer =>
    match Fields.get? name layer.entries with
    | some shape => some shape
    | none => if layer.barrier then none else lookupIn base name outer

def lookup (name : String) (scope : Visibility) : Option Shape :=
  lookupIn scope.base name scope.layers

/-- A name that is not visible is defined. -/
def defineNew (name : String) (shape : Shape) (scope : Visibility) : Visibility :=
  if (scope.lookup name).isSome then scope else scope.define name shape

/-- The outcome for a dotted name. -/
def resolve (name : String) (scope : Visibility) : Resolution :=
  match Dotted.segments name with
  | [] => .undefined name
  | root :: rest =>
    match scope.lookup root with
    | none => .undefined root
    | some shape => shape.resolve root rest

end Visibility

end GlobalAudit
