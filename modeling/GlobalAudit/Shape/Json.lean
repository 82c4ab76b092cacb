import GlobalAudit.Json.Basic
import GlobalAudit.Shape.Basic

/-! Shapes as JSON. A table is an object with its fields in order, a kind and the mark of an own
name are strings. In the other direction every JSON value says something: objects are tables, an
array is a table of the names in it, a string names a type, and all else may be anything. -/
namespace GlobalAudit.Shape

mutual

def toJson : Shape → Json
  | .table fields => .object (membersOf fields)
  | .scalar kind => .string kind.name
  | .own => .string "in-module"

def membersOf : List (String × Shape) → List (String × Json)
  | [] => []
  | (name, shape) :: rest => (name, toJson shape) :: membersOf rest

end

/-- The names among the items of an array. -/
def namesIn (items : List Json) : List String :=
  items.filterMap fun
    | .string name => some name
    | _ => none

mutual

def ofJson : Json → Shape
  | .object members => .table (Fields.ofList (fieldsOf members))
  | .array items => .table (Fields.ofList ((namesIn items).map fun name => (name, .scalar .any)))
  | .string name => ofTypeName name
  | _ => .scalar .any

def fieldsOf : List (String × Json) → List (String × Shape)
  | [] => []
  | (name, value) :: rest => (name, ofJson value) :: fieldsOf rest

end

end GlobalAudit.Shape
