import GlobalAudit.Fields
import GlobalAudit.Files.Path

/-! Directory trees. A path is followed piece by piece, from the root if it begins with a slash and
from the working directory otherwise; two dots lead back to the directory before, and the root is its
own. -/
namespace GlobalAudit

inductive Tree where
  /-- A file with its bytes. -/
  | file (content : List UInt8)
  /-- A directory with its entries. -/
  | directory (entries : List (String × Tree))
  deriving Inhabited

/-- Why a path leads to no file. -/
inductive ReadError where
  | missing
  | notDirectory
  | isDirectory
  | notText
  deriving DecidableEq, Repr

def ReadError.message : ReadError → String
  | .missing => "No such file or directory (os error 2)"
  | .notDirectory => "Not a directory (os error 20)"
  | .isDirectory => "Is a directory (os error 21)"
  | .notText => "stream did not contain valid UTF-8"

namespace Tree

def isDirectory : Tree → Bool
  | .directory _ => true
  | .file _ => false

def entries : Tree → List (String × Tree)
  | .directory entries => entries
  | .file _ => []

/-- Follows pieces from a place, given with the directories that enclose it, the root last. -/
def follow : List String → Tree → List Tree → Except ReadError Tree
  | [], place, _ => .ok place
  | piece :: rest, place, outer =>
    match place with
    | .file _ => .error .notDirectory
    | .directory entries =>
      if Path.isVoid piece then follow rest place outer
      else if piece = ".." then
        match outer with
        | [] => follow rest place []
        | enclosing :: outer => follow rest enclosing outer
      else
        match Fields.get? piece entries with
        | some inner => follow rest inner (place :: outer)
        | none => .error .missing

/-- Entries in ascending order of their names. -/
def sorted {α : Type} (entries : List (String × α)) : List (String × α) :=
  entries.mergeSort fun first second => decide (first.1 ≤ second.1)

mutual

/-- The paths of the files that an entry contributes: a file itself if `accept` takes its name, and a
directory all that is below it, in order of the pieces. -/
def filesAt (accept : String → Bool) (path name : String) : Tree → List String
  | .file _ => if accept name then [path] else []
  | .directory entries => (sorted (filesIn accept path entries)).flatMap Prod.snd
termination_by structural tree => tree

/-- The entries of a directory with the paths that they contribute. -/
def filesIn (accept : String → Bool) (path : String) :
    List (String × Tree) → List (String × List String)
  | [] => []
  | (name, entry) :: rest =>
    (name, filesAt accept (Path.join path name) name entry) :: filesIn accept path rest
termination_by structural entries => entries

end

/-- The paths of the files below a directory whose names `accept` takes. -/
def filesBelow (accept : String → Bool) (path : String) (entries : List (String × Tree)) :
    List String :=
  (sorted (filesIn accept path entries)).flatMap Prod.snd

/-- The tree with an entry at the end of some pieces, and the directories on the way to it. -/
def place (entry : Tree) : List String → Tree → Tree
  | [], _ => entry
  | piece :: rest, root =>
    let inner := (Fields.get? piece root.entries).getD (.directory [])
    .directory (Fields.put piece (place entry rest inner) root.entries)

end Tree

/-- All files there are, and the names that lead from the root to the working directory. -/
structure FileSystem where
  root : Tree
  working : List String

namespace FileSystem

/-- The pieces that lead from the root to a path. -/
def wayTo (path : String) (files : FileSystem) : List String :=
  (if path.toList.head? == some '/' then [] else files.working) ++ Path.pieces path

/-- What a path leads to. The empty path leads nowhere. -/
def locate (path : String) (files : FileSystem) : Except ReadError Tree :=
  if path = "" then .error .missing else Tree.follow (files.wayTo path) files.root []

/-- The bytes of a file. -/
def read (path : String) (files : FileSystem) : Except ReadError (List UInt8) :=
  match files.locate path with
  | .error reason => .error reason
  | .ok (.directory _) => .error .isDirectory
  | .ok (.file content) => .ok content

/-- The file system with an entry at a path. -/
def insert (files : FileSystem) (path : String) (entry : Tree) : FileSystem :=
  { files with root := Tree.place entry (Path.resolved (files.wayTo path)) files.root }

/-- Nothing but the working directory. -/
def empty (working : List String) : FileSystem :=
  insert ⟨.directory [], working⟩ "." (.directory [])

end FileSystem

end GlobalAudit
