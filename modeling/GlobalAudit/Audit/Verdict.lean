import GlobalAudit.Module.Source
import GlobalAudit.Reference.Facts

/-! The outcome of the audit of one file. A finding is an access to a global that is not defined, or
a write to one that is; a warning is about a required module and does not count against the file. -/
namespace GlobalAudit

inductive FindingKind where
  | undefined
  | redefined
  deriving DecidableEq, Repr

def FindingKind.name : FindingKind → String
  | .undefined => "undefined"
  | .redefined => "redefined"

structure Finding where
  line : Nat
  kind : FindingKind
  isWrite : Bool
  /-- For an undefined access, the shortest part of the name that leads nowhere. -/
  name : String
  deriving DecidableEq, Repr

/-- The word for an access. -/
def accessName (isWrite : Bool) : String := if isWrite then "set" else "get"

def Finding.message (finding : Finding) : String :=
  s!"{finding.line}: {finding.kind.name} {accessName finding.isWrite} {finding.name}"

inductive Warning where
  | unresolved (line : Nat) (required : String) (reason : LoadError)
  | pollution (line : Nat) (required global : String)
  deriving DecidableEq, Repr

namespace Warning

def line : Warning → Nat
  | .unresolved line _ _ => line
  | .pollution line _ _ => line

def message : Warning → String
  | .unresolved line _ reason => s!"{line}: warning: {reason.message}"
  | .pollution line required global =>
    s!"{line}: warning: loading module '{required}' defines global '{global}'"

end Warning

structure Verdict where
  findings : List Finding
  warnings : List Warning
  facts : Facts
  /-- The globals that the file brings into view itself. -/
  definitions : Fields Shape

def Verdict.passed (verdict : Verdict) : Bool := verdict.findings.isEmpty

end GlobalAudit
