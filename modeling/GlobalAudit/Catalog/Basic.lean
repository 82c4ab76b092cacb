import GlobalAudit.Shape.Basic

/-! The catalog of allowed globals: which names may be used without being defined in the file, and
what each of them holds. -/
namespace GlobalAudit

structure Catalog where
  globals : Fields Shape
  deriving Inhabited

namespace Catalog

def empty : Catalog := ⟨[]⟩

/-- A global under exactly this name. -/
def insert (name : String) (shape : Shape) (catalog : Catalog) : Catalog :=
  ⟨Fields.put name shape catalog.globals⟩

/-- A shape under a dotted name, with the tables on the way to it. -/
def insertPath (name : String) (shape : Shape) (catalog : Catalog) : Catalog :=
  ⟨Shape.putPath name shape catalog.globals⟩

/-- Dotted entries inserted one after the other. -/
def extend (catalog : Catalog) (entries : List (String × Shape)) : Catalog :=
  entries.foldl (fun built (name, shape) => built.insertPath name shape) catalog

/-- The newer catalog wins, tables merge. -/
def merge (catalog newer : Catalog) : Catalog :=
  ⟨Shape.mergeFields catalog.globals newer.globals⟩

def get? (name : String) (catalog : Catalog) : Option Shape := Fields.get? name catalog.globals

/-- What a dotted name leads to. -/
def find? (name : String) (catalog : Catalog) : Option Shape :=
  (Shape.table catalog.globals).follow? (Dotted.segments name)

/-- Whether fields of a dotted name may be followed through an alias. -/
def isTableLike (name : String) (catalog : Catalog) : Bool :=
  (catalog.find? name).any Shape.isTableLike

def contains (name : String) (catalog : Catalog) : Bool := (catalog.get? name).isSome

end Catalog

end GlobalAudit
