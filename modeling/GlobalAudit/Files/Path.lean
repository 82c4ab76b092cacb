import GlobalAudit.Text.Basic

/-! File paths as text. Slashes divide a path into pieces; empty pieces and single dots behind the
first piece carry no meaning, but a path is shown the way it was written. -/
namespace GlobalAudit.Path

def pieces (path : String) : List String := (path.toList.splitOn '/').map String.ofList

/-- Pieces that carry no meaning behind the first one. -/
def isVoid (piece : String) : Bool := piece == "" || piece == "."

/-- Pieces without the meaningless ones at the end. -/
def trimEnd (pieces : List String) : List String := (pieces.reverse.dropWhile isVoid).reverse

/-- The first piece and the others up to the last one that carries meaning. -/
def body (path : String) : String × List String :=
  match pieces path with
  | [] => ("", [])
  | first :: rest => (first, trimEnd rest)

def isName (piece : String) : Bool := piece != "" && piece != "." && piece != ".."

/-- The last piece, if it is a name. -/
def fileName? (path : String) : Option String :=
  let (first, rest) := body path
  let last := rest.getLast?.getD first
  if isName last then some last else none

/-- What is before the last piece, as it was written. -/
def parent (path : String) : String :=
  let (first, rest) := body path
  match trimEnd rest.dropLast with
  | [] =>
    if rest.isEmpty then ""
    else if first == "" then "/"
    else first
  | outer => "/".intercalate (first :: outer)

/-- What is behind the last dot of a file name, unless nothing else is before it. -/
def extension? (path : String) : Option String :=
  match fileName? path with
  | none => none
  | some name =>
    match Text.cutLast? '.' name.toList with
    | some (stem, ending) => if stem.isEmpty then none else some (String.ofList ending)
    | none => none

/-- The names on a way, where two dots take back the name before. -/
def resolved (pieces : List String) : List String :=
  pieces.foldl (fun way piece =>
    if isVoid piece then way else if piece = ".." then way.dropLast else way ++ [piece]) []

/-- A name below a directory. -/
def join (directory name : String) : String :=
  if directory.toList.getLast? == some '/' || directory == "" then directory ++ name
  else directory ++ "/" ++ name

end GlobalAudit.Path
