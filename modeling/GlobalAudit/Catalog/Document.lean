import GlobalAudit.Catalog.Basic
import GlobalAudit.Json.Reader
import GlobalAudit.Shape.Json
import GlobalAudit.Text.Basic

/-! Catalogs written down as documents: a JSON object from names to shapes, or plain text with one
dotted name on a line and comments behind a hash sign. -/
namespace GlobalAudit

/-- Why a document is no catalog. -/
inductive DocumentError where
  | invalidJson
  | notAnObject
  | badName (line : Nat) (name : String)
  deriving DecidableEq, Repr

/-- The message about the document at `path`. -/
def DocumentError.message (path : String) : DocumentError → String
  | .invalidJson => s!"{path}: invalid JSON"
  | .notAnObject => s!"{path}: top level must be an object"
  | .badName line name => s!"{path}:{line}: invalid global name '{name}'"

namespace Catalog

/-- The catalog of the object that a reader of JSON finds in a text. -/
def ofDocument (read? : String → Option Json) (text : String) : Except DocumentError Catalog :=
  match read? text with
  | none => .error .invalidJson
  | some (.object members) => .ok ⟨Fields.ofList (Shape.fieldsOf members)⟩
  | some _ => .error .notAnObject

/-- The catalog of a JSON object. -/
def ofJsonText : String → Except DocumentError Catalog := ofDocument Json.read?

def isWordStart (c : Char) : Bool := c.isAlpha || c == '_'

/-- An ASCII letter or underscore, then letters, digits and underscores. -/
def isIdentifier (name : String) : Bool :=
  match name.toList with
  | [] => false
  | first :: rest => isWordStart first && rest.all fun c => isWordStart c || c.isDigit

/-- The name on a line, behind which a comment may stand. -/
def nameOnLine (line : List Char) : String :=
  String.ofList (Text.trim (line.takeWhile (· != '#')))

/-- Adds the name on a line. A name that leads somewhere already is left as it is, so no line takes
away what an earlier one listed. -/
def addLine (catalog : Catalog) (line : List Char × Nat) : Except DocumentError Catalog :=
  let name := nameOnLine line.1
  if name.isEmpty then .ok catalog
  else if (Dotted.segments name).all isIdentifier then
    if (catalog.find? name).isSome then .ok catalog
    else .ok (catalog.insertPath name (.scalar .any))
  else .error (.badName line.2 name)

/-- The catalog of a list of names. -/
def ofNameList (text : String) : Except DocumentError Catalog :=
  ((Text.lines text.toList).zipIdx 1).foldlM addLine empty

end Catalog

end GlobalAudit
