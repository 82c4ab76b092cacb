import GlobalAudit.Output.Report

/-! The cross reference of a file: for each name the lines that read it and the lines that write it.
Names are in ascending order; lines keep the order of the references, and of equal lines next to each
other one is kept. -/
namespace GlobalAudit

/-- The lines that use a name. -/
structure Usage where
  name : String
  reads : List Nat
  writes : List Nat
  deriving DecidableEq, Repr

namespace Usage

/-- One of each run of equal lines. -/
def collapse : List Nat → List Nat
  | [] => []
  | [line] => [line]
  | line :: next :: rest => if line = next then collapse (next :: rest) else line :: collapse (next :: rest)

/-- The lines on which a name is read, or written. -/
def linesOf (name : String) (isWrite : Bool) (references : List Reference) : List Nat :=
  collapse ((references.filter fun reference =>
    reference.name == name && reference.isWrite == isWrite).map Reference.line)

/-- The names of references in ascending order, each once. -/
def names (references : List Reference) : List String :=
  ((references.map Reference.name).mergeSort fun first second => decide (first ≤ second)).eraseDups

def ofReferences (references : List Reference) : List Usage :=
  (names references).map fun name =>
    ⟨name, linesOf name false references, linesOf name true references⟩

def lineList (lines : List Nat) : String := ",".intercalate (lines.map fun line => toString line)

/-- Names are padded to the longest of them in bytes. -/
def width (usages : List Usage) : Nat := (usages.map fun usage => usage.name.utf8ByteSize).foldl max 0

def text (width : Nat) (usage : Usage) : String :=
  "  " ++ Text.padEnd width usage.name ++
  (if usage.reads.isEmpty then "" else s!"  get {lineList usage.reads}") ++
  (if usage.writes.isEmpty then "" else s!"  set {lineList usage.writes}")

def toJson (usage : Usage) : Json :=
  .object [("get", .array (usage.reads.map .ofNat)), ("set", .array (usage.writes.map .ofNat))]

end Usage

namespace Verdict

/-- The cross reference as text. -/
def xrefText (path : String) (verdict : Verdict) : String :=
  let usages := Usage.ofReferences verdict.facts.references
  Text.unlines (s!"{path}:" :: usages.map (Usage.text (Usage.width usages)))

/-- The cross reference as JSON. -/
def xrefJson (path : String) (verdict : Verdict) : Json :=
  .object [("file", .string path),
    ("xref", .object ((Usage.ofReferences verdict.facts.references).map fun usage =>
      (usage.name, usage.toJson)))]

end Verdict

end GlobalAudit
