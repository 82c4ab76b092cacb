import GlobalAudit.Files.Tree
import GlobalAudit.Text.Wildcard

/-! The files that the paths of a command line stand for. A last piece with wildcards stands for the
files that match it, a directory for all Lua files below it, and any other path for itself. -/
namespace GlobalAudit

inductive SelectionError where
  | notFound (path : String)
  | noMatch (path : String)
  deriving DecidableEq, Repr

def SelectionError.message : SelectionError → String
  | .notFound path => s!"{path}: no such file or directory"
  | .noMatch path => s!"pattern {path} matches no files"

namespace Tree

/-- Whether a file name ends like one of a Lua source. -/
def isSource (name : String) : Bool := Path.extension? name == some "lua"

/-- The files in a directory whose names match a pattern. -/
def matching (pattern directory : String) (entries : List (String × Tree)) : List String :=
  ((sorted entries).filter fun (name, entry) =>
    !entry.isDirectory && Text.Wildcard.fits pattern name).map fun (name, _) =>
      Path.join directory name

end Tree

namespace FileSystem

/-- The files that a path with wildcards stands for. -/
def expand (path pattern : String) (files : FileSystem) : Except SelectionError (List String) :=
  let parent := Path.parent path
  let directory := if parent == "" then "." else parent
  match files.locate directory with
  | .ok (.directory entries) =>
    match Tree.matching pattern directory entries with
    | [] => .error (.noMatch path)
    | chosen => .ok chosen
  | _ => .error (.notFound directory)

/-- The pattern that a path ends in. -/
def pattern? (path : String) : Option String := (Path.fileName? path).filter Text.Wildcard.isPattern

/-- The files that one path stands for. -/
def selectOne (files : FileSystem) (path : String) : Except SelectionError (List String) :=
  match pattern? path with
  | some pattern => files.expand path pattern
  | none =>
    match files.locate path with
    | .ok (.directory entries) => .ok (Tree.filesBelow Tree.isSource path entries)
    | .ok (.file _) => .ok [path]
    | .error _ => .error (.notFound path)

/-- The files that all paths stand for, in order. -/
def select (files : FileSystem) (paths : List String) : Except SelectionError (List String) :=
  (paths.mapM files.selectOne).map List.flatten

end FileSystem

end GlobalAudit
