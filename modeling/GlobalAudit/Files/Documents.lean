import GlobalAudit.Catalog.Document
import GlobalAudit.Files.Tree
import GlobalAudit.Text.Utf8

/-! Catalogs kept in files. A file whose name ends in `json` is a JSON document, any other one a list
of names; of several files the later ones win. -/
namespace GlobalAudit

/-- Why a file gives no catalog. -/
inductive DocumentFileError where
  | unreadable (path : String) (reason : ReadError)
  | invalid (path : String) (reason : DocumentError)
  deriving DecidableEq, Repr

def DocumentFileError.message : DocumentFileError → String
  | .unreadable path reason => s!"cannot read {path}: {reason.message}"
  | .invalid path reason => reason.message path

namespace FileSystem

/-- The text of a file. -/
def readText (path : String) (files : FileSystem) : Except ReadError String :=
  match files.read path with
  | .error reason => .error reason
  | .ok content =>
    match Text.Utf8.decode? content with
    | some text => .ok text
    | none => .error .notText

/-- The catalog in a file. -/
def readCatalog (files : FileSystem) (path : String) : Except DocumentFileError Catalog :=
  match files.readText path with
  | .error reason => .error (.unreadable path reason)
  | .ok text =>
    (if Path.extension? path == some "json" then Catalog.ofJsonText text
      else Catalog.ofNameList text).mapError (.invalid path)

/-- The merged catalog of several files. -/
def readCatalogs (files : FileSystem) (paths : List String) : Except DocumentFileError Catalog :=
  paths.foldlM (fun merged path => (files.readCatalog path).map merged.merge) Catalog.empty

end FileSystem

end GlobalAudit
