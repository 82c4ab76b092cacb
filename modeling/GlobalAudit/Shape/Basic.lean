import GlobalAudit.Fields

/-! What a global is known to hold: a table with known fields, a plain value of some kind, or
something that the file under audit defines itself, about which nothing more is known. -/
namespace GlobalAudit

/-- Kinds of values that are not tables. -/
inductive Kind where
  | function
  | string
  | number
  | boolean
  | userdata
  | any
  deriving DecidableEq, Repr

namespace Kind

def name : Kind → String
  | .function => "function"
  | .string => "string"
  | .number => "number"
  | .boolean => "boolean"
  | .userdata => "userdata"
  | .any => "any"

/-- The kind that a Lua type name stands for. Threads count as userdata and nil as anything;
tables have no kind. -/
def ofTypeName? : String → Option Kind
  | "function" => some .function
  | "string" => some .string
  | "number" => some .number
  | "boolean" => some .boolean
  | "userdata" => some .userdata
  | "thread" => some .userdata
  | "any" => some .any
  | "nil" => some .any
  | _ => none

theorem ofTypeName?_name (kind : Kind) : ofTypeName? kind.name = some kind := by
  cases kind <;> rfl

end Kind

/-- What a global holds. Writing to an `own` name never redefines anything. -/
inductive Shape where
  | table (fields : List (String × Shape))
  | scalar (kind : Kind)
  | own
  deriving Inhabited

namespace Shape

/-- Fields of tables and of own names may be followed through an alias. -/
def isTableLike : Shape → Bool
  | .table _ => true
  | .own => true
  | .scalar _ => false

def isOwn : Shape → Bool
  | .own => true
  | _ => false

/-- The known fields, none outside tables. -/
def fields : Shape → Fields Shape
  | .table fields => fields
  | _ => []

def field? (name : String) : Shape → Option Shape
  | .table fields => Fields.get? name fields
  | _ => none

/-- The shape that a Lua type name stands for; an unknown name may be anything. -/
def ofTypeName (name : String) : Shape :=
  if name = "table" then .table [] else .scalar ((Kind.ofTypeName? name).getD .any)

/-- A short description for people. -/
def describe : Shape → String
  | .table fields => s!"table ({fields.length} fields)"
  | .scalar kind => kind.name
  | .own => "in-module"

/-! ## Paths

Reading what a path of field names leads to and putting a shape at its end. Putting makes the tables on
the way, also in the place of something that is no table. -/

/-- What a path of fields leads to. -/
def follow? : List String → Shape → Option Shape
  | [], shape => some shape
  | name :: rest, shape => (shape.field? name).bind (follow? rest)

/-- The fields below a name, none where no table is. -/
def fieldsUnder (name : String) (fields : Fields Shape) : Fields Shape :=
  match Fields.get? name fields with
  | some shape => shape.fields
  | none => []

/-- Fields with a shape at the end of a path. -/
def putAt (shape : Shape) : List String → Fields Shape → Fields Shape
  | [], fields => fields
  | [name], fields => Fields.put name shape fields
  | name :: rest, fields => Fields.put name (.table (putAt shape rest (fieldsUnder name fields))) fields

/-- Fields with a shape under a dotted name. -/
def putPath (name : String) (shape : Shape) (fields : Fields Shape) : Fields Shape :=
  putAt shape (Dotted.segments name) fields

/-! ## Merging

Tables merge field by field; everywhere else the newcomer replaces what was there. Fields that are
present keep their places and new ones follow in their own order. -/

mutual

def merge : Shape → Shape → Shape
  | .table mine, .table theirs => .table (mergeFields mine theirs)
  | _, other => other
termination_by structural _ other => other

def mergeFields (mine : Fields Shape) : List (String × Shape) → Fields Shape
  | [] => mine
  | (name, value) :: rest =>
    match Fields.get? name mine with
    | some present => mergeFields (Fields.put name (present.merge value) mine) rest
    | none => mergeFields (mine ++ [(name, value)]) rest
termination_by structural theirs => theirs

end

end Shape

end GlobalAudit
