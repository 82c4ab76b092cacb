import GlobalAudit.Module.Source
import GlobalAudit.Text.Basic

/-! The records that an interpreter prints about a module it has loaded, one on a line and with tabs
between their fields: `G` for a global that appeared, `F` for an exported field and its type, `V`
for the type of a module that is no table, and `E` for an error. Other lines say nothing. -/
namespace GlobalAudit.Probe

/-- A record in its parts. -/
inductive Line where
  | error (text : String)
  | newGlobal (name flag : String)
  | field (path type : String)
  | value (type : String)
  | other
  deriving DecidableEq, Repr

def lineOf (text : List Char) : Line :=
  match (text.splitOn '\t').map String.ofList with
  | "E" :: text :: _ => .error text
  | "G" :: name :: flag :: _ => .newGlobal name flag
  | "F" :: path :: type :: _ => .field path type
  | "V" :: type :: _ => .value type
  | _ => .other

/-- The error that a message about a module means. -/
def errorOf (name text : String) : LoadError :=
  if Text.occursIn s!"module '{name}' not found".toList text.toList then .notFound name
  else .failed name (Text.trimmed text)

/-- Adds what a record says; an error ends the reading. -/
def addLine (name : String) (loaded : LoadedModule) (line : Line) : LoadAnswer :=
  match line with
  | .error text => .error (errorOf name text)
  | .newGlobal appeared flag =>
    .ok { loaded with newGlobals := loaded.newGlobals ++ [⟨appeared, flag == "1"⟩] }
  | .field path type =>
    match loaded.exports with
    | .table fields =>
      .ok { loaded with exports := .table (Shape.putPath path (.ofTypeName type) fields) }
    | _ => .ok loaded
  | .value type => .ok { loaded with exports := .ofTypeName type }
  | .other => .ok loaded

/-- What the printed records say about the module. -/
def decode (name : String) (text : String) : LoadAnswer :=
  ((Text.lines text.toList).map lineOf).foldlM (addLine name) ⟨.table [], []⟩

end GlobalAudit.Probe
