import GlobalAudit.Audit.Scope
import GlobalAudit.Reference.Walk

/-! Judging the references of a file. References are taken in order of their lines; from the line of
a strict declaration on only the names of the module are visible. Equal findings are reported
once. -/
namespace GlobalAudit

namespace Audit

/-- The finding about a reference, if there is one. -/
def classify (policy : Policy) (scope : Visibility) (reference : Reference) : Option Finding :=
  if policy.tolerant then none
  else
    match scope.resolve reference.name with
    | .defined shape => redefinition shape
    | .beyond shape => redefinition shape
    | .undefined missing => some ⟨reference.line, .undefined, reference.isWrite, missing⟩
where
  redefinition (shape : Shape) : Option Finding :=
    if reference.isWrite && !shape.isOwn then
      some ⟨reference.line, .redefined, true, reference.name⟩
    else none

/-- The line from which on only the names of the module are visible. -/
def strictLine? (facts : Facts) : Option Nat :=
  match facts.declaration with
  | some ⟨line, _, .strict⟩ => some line
  | _ => none

/-- The judging of references in order. -/
structure Judging where
  scope : Visibility
  narrowed : Bool
  findings : List Finding

/-- Enters the strict module when its line is reached. -/
def narrow (facts : Facts) (line : Nat) (judging : Judging) : Judging :=
  match strictLine? facts with
  | none => judging
  | some declared =>
    if !judging.narrowed && declared ≤ line then
      { judging with
        scope := judging.scope.pushBarrier (strictEntries facts declared judging.scope)
        narrowed := true }
    else judging

def report (finding : Option Finding) (judging : Judging) : Judging :=
  match finding with
  | none => judging
  | some finding =>
    if finding ∈ judging.findings then judging
    else { judging with findings := judging.findings ++ [finding] }

def judge (policy : Policy) (facts : Facts) (judging : Judging) (reference : Reference) : Judging :=
  let judging := narrow facts reference.line judging
  report (classify policy judging.scope reference) judging

/-- References by line, those of one line in the order they were found. -/
def byLine (references : List Reference) : List Reference :=
  references.mergeSort fun first second => first.line ≤ second.line

/-- The verdict on a file of which the facts are known. -/
def verdict {σ : Type} [Loader σ] (catalog : Catalog) (policy : Policy) (facts : Facts) (sources : σ) :
    Verdict × σ :=
  let loading := addRequires catalog policy facts sources
  let scope := definitions facts loading.scope
  let judged := (byLine facts.references).foldl (judge policy facts) ⟨scope, false, []⟩
  (⟨judged.findings, loading.warnings, facts, scope.tip⟩, loading.sources)

end Audit

namespace Listing

/-- The verdict on a listing, and the sources with what they remember. -/
def audit {σ : Type} [Loader σ] (catalog : Catalog) (policy : Policy) (listing : Listing)
    (sources : σ) : Verdict × σ :=
  Audit.verdict catalog policy (listing.facts catalog) sources

end Listing

end GlobalAudit
