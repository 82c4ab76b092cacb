import GlobalAudit.Audit.Verdict
import GlobalAudit.Json.Printer
import GlobalAudit.Shape.Json
import GlobalAudit.Text.Basic

/-! Verdicts for people and for programs. The check report lists warnings and findings, the dump
lists everything the audit knows about a file. Each is written as text with one item on a line, or
as one line of JSON with the members of all objects in ascending order. -/
namespace GlobalAudit

/-- A value on a line of its own. -/
def Json.line (value : Json) : String := value.ordered.render ++ "\n"

def Finding.toJson (finding : Finding) : Json :=
  .object [("line", .ofNat finding.line), ("kind", .string finding.kind.name),
    ("is_write", .bool finding.isWrite), ("name", .string finding.name)]

def Warning.toJson : Warning → Json
  | .unresolved line required reason =>
    .object [("warning", .string "unresolved_module"), ("line", .ofNat line),
      ("module", .string required), ("reason", .string reason.message)]
  | .pollution line required global =>
    .object [("warning", .string "global_pollution"), ("line", .ofNat line),
      ("module", .string required), ("global", .string global)]

def Reference.toJson (reference : Reference) : Json :=
  .object [("line", .ofNat reference.line), ("name", .string reference.name),
    ("is_write", .bool reference.isWrite)]

def Require.toJson (require : Require) : Json :=
  .object [("line", .ofNat require.line), ("module", .string require.name),
    ("alias", .ofOption .string require.receiver)]

def ModuleDeclaration.toJson (declaration : ModuleDeclaration) : Json :=
  .object [("line", .ofNat declaration.line), ("name", .ofOption .string declaration.name),
    ("mode", .string declaration.mode.name)]

def Alias.toJson (entry : Alias) : Json :=
  .object [("name", .string entry.name), ("reference_name", .string entry.target)]

def Facts.toJson (facts : Facts) : Json :=
  .object [("references", .array (facts.references.map Reference.toJson)),
    ("requires", .array (facts.requires.map Require.toJson)),
    ("remarks", .object [("module", .ofOption ModuleDeclaration.toJson facts.declaration),
      ("implicit_module", .ofOption .string facts.returned),
      ("end_of_globals", .ofOption .ofNat facts.endOfGlobals)]),
    ("known_locals", .array (facts.aliases.map Alias.toJson))]

namespace Verdict

/-- The check report as text: warnings first, then findings. -/
def checkText (path : String) (verdict : Verdict) : String :=
  Text.unlines ((verdict.warnings.map Warning.message ++ verdict.findings.map Finding.message).map
    fun message => s!"{path}:{message}")

/-- The check report as JSON. -/
def checkJson (path : String) (verdict : Verdict) : Json :=
  .object [("file", .string path), ("passed", .bool verdict.passed),
    ("diagnostics", .array (verdict.findings.map Finding.toJson)),
    ("warnings", .array (verdict.warnings.map Warning.toJson))]

def requireText (require : Require) : String :=
  match require.receiver with
  | some receiver => s!"  require {require.line} \"{require.name}\" as {receiver}"
  | none => s!"  require {require.line} \"{require.name}\""

def declarationText (declaration : ModuleDeclaration) : String :=
  let name := declaration.name.getD "?"
  s!"  module {declaration.line} {name} {declaration.mode.name}"

def aliasText (entry : Alias) : String := s!"  known local {entry.name} = {entry.target}"

def definitionText (entry : String × Shape) : String := s!"  defines {entry.1}: {entry.2.describe}"

def referenceText (reference : Reference) : String :=
  s!"  {reference.line} {accessName reference.isWrite} {reference.name}"

/-- The dump as text. -/
def dumpText (path : String) (verdict : Verdict) : String :=
  let facts := verdict.facts
  Text.unlines (s!"{path}:" :: (facts.requires.map requireText ++
    (facts.declaration.map declarationText).toList ++
    (facts.returned.map fun name => s!"  implicit module {name}").toList ++
    (facts.endOfGlobals.map fun line => s!"  end of globals {line}").toList ++
    facts.aliases.map aliasText ++ verdict.definitions.map definitionText ++
    facts.references.map referenceText))

/-- The dump as JSON. -/
def dumpJson (path : String) (verdict : Verdict) : Json :=
  .object [("file", .string path), ("facts", verdict.facts.toJson),
    ("definitions", .object (Shape.membersOf verdict.definitions))]

end Verdict

/-! ## The count of files at the end of a run -/

structure Summary where
  checked : Nat
  failed : Nat
  skipped : Nat
  deriving DecidableEq, Repr

namespace Summary

def zero : Summary := ⟨0, 0, 0⟩

def passed (summary : Summary) : Bool := summary.failed == 0

/-- The summary line; files that were skipped are only mentioned if there are any. -/
def text (summary : Summary) : String :=
  s!"{summary.checked} file(s) checked, {summary.failed} failed" ++
  (if summary.skipped == 0 then "" else s!", {summary.skipped} skipped") ++ "\n"

def skip (summary : Summary) : Summary := { summary with skipped := summary.skipped + 1 }

/-- Counts a file by whether it passed. -/
def count (passed : Bool) (summary : Summary) : Summary :=
  { summary with
    checked := summary.checked + 1
    failed := if passed then summary.failed else summary.failed + 1 }

end Summary

end GlobalAudit
