import GlobalAudit.Proofs.Judgement

/-! Where the findings of an audit come from. Each stems from a reference: the audit makes it when it
comes to that reference, and it has the root of the reference. -/
namespace GlobalAudit.Audit

section Access

variable {policy : Policy} {scope : Visibility} {name : String} {reference : Reference}

theorem resolve_of_lookup {rest : List String} {shape : Shape}
    (path : Dotted.segments reference.name = name :: rest) (bound : scope.lookup name = some shape) :
    scope.resolve reference.name = shape.resolve name rest := by
  rw [Visibility.resolve, path]
  simp only [bound]

/-- What is below an own name, or the name itself, may be read and written. -/
theorem classify_of_own {walked : String} {rest : List String}
    (resolved : scope.resolve reference.name = Shape.resolve walked rest .own) :
    classify policy scope reference = none := by
  rw [classify, resolved]
  cases rest with
  | nil => simp [Shape.resolve, classify.redefinition, Shape.isOwn]
  | cons segment more => simp [Shape.resolve, classify.redefinition, Shape.isOwn]

end Access

/-! ## Roots -/

/-- What leads nowhere has the root of what led to it. -/
theorem root_of_undefined {walked missing : String} {rest : List String} {shape : Shape}
    (lost : shape.resolve walked rest = .undefined missing) :
    Dotted.root missing = Dotted.root walked := by
  induction rest generalizing walked shape with
  | nil => cases lost
  | cons segment more ih =>
      cases shape with
      | table fields =>
          rw [Shape.resolve] at lost
          split at lost
          · rw [ih lost, Dotted.root_extend]
          · split at lost
            · cases lost
            · cases lost
              exact Dotted.root_extend walked segment
      | _ => cases lost

/-- A finding has the root of the reference it is about. -/
theorem judgedAlone_root {catalog : Catalog} {policy : Policy} {facts : Facts}
    {defined : Fields Shape} {reference : Reference} {finding : Finding}
    (found : judgedAlone catalog policy facts defined reference = some finding) :
    Dotted.root finding.name = Dotted.root reference.name := by
  rcases (line_and_name_of_classify found).2 with same | lost
  · rw [same]
  · obtain ⟨rest, path⟩ := Dotted.segments_eq_root_cons reference.name
    have plain := Dotted.root_of_not_dotted (Dotted.isDotted_root reference.name)
    rw [Visibility.resolve, path] at lost
    dsimp only at lost
    split at lost
    · rw [← Resolution.undefined.inj lost, plain]
    · rw [root_of_undefined lost, plain]

/-! ## The turn of a reference -/

section Turns

variable {σ : Type} [Loader σ]

theorem mem_findings_iff (catalog : Catalog) (policy : Policy) (facts : Facts) (sources : σ)
    (finding : Finding) :
    finding ∈ (verdict catalog policy facts sources).1.findings ↔
      ∃ reference ∈ facts.references, judgedAlone catalog policy facts
        (verdict catalog policy facts sources).1.definitions reference = some finding := by
  rw [verdict_findings, List.mem_eraseDups, List.mem_filterMap]
  simp only [(byLine_stable facts.references).permuted.mem_iff]

/-- The state in which the audit starts to judge the references of a file. -/
def judgingStart (catalog : Catalog) (policy : Policy) (facts : Facts) (sources : σ) : Judging :=
  ⟨definitions facts (addRequires catalog policy facts sources).scope, false, []⟩

/-- A finding stems from a reference: the audit makes it at the turn of the reference, after those
that come before it in the order of the lines. -/
def StemsFrom (catalog : Catalog) (policy : Policy) (facts : Facts) (sources : σ)
    (finding : Finding) (reference : Reference) : Prop :=
  ∃ before after, byLine facts.references = before ++ reference :: after ∧
    let judging := before.foldl (judge policy facts) (judgingStart catalog policy facts sources)
    classify policy (narrow facts reference.line judging).scope reference = some finding

end Turns

namespace Ready

variable {facts : Facts} {outer : Visibility} {line next : Nat} {judging : Judging}

theorem mono (ready : Ready facts outer line judging) (later : line ≤ next) :
    Ready facts outer next judging := by
  cases ready with
  | outside findings => exact .outside findings
  | inside strict passed findings => exact .inside strict (Nat.le_trans passed later) findings

/-- The state is ready for the next reference after all that come before it. -/
theorem foldl (policy : Policy) (ready : Ready facts outer line judging) {references : List Reference}
    (sorted : references.Pairwise fun first second => first.line ≤ second.line)
    (behind : ∀ reference ∈ references, line ≤ reference.line)
    (ahead : ∀ reference ∈ references, reference.line ≤ next) (later : line ≤ next) :
    Ready facts outer next (references.foldl (judge policy facts) judging) := by
  induction references generalizing judging line with
  | nil => exact ready.mono later
  | cons reference rest ih =>
      obtain ⟨ordered, sortedRest⟩ := List.pairwise_cons.mp sorted
      obtain ⟨here, aheadRest⟩ := List.forall_mem_cons.mp ahead
      have entered := (ready.narrow (behind reference List.mem_cons_self)).1
      exact ih (entered.report _) sortedRest ordered aheadRest here

end Ready

section Turns

variable {σ : Type} [Loader σ] {catalog : Catalog} {policy : Policy} {facts : Facts} {sources : σ}
  {finding : Finding} {reference : Reference}

/-- At its turn a reference is judged as if it stood alone. -/
theorem classify_at_turn {before after : List Reference}
    (split : byLine facts.references = before ++ reference :: after) :
    classify policy (narrow facts reference.line
        (before.foldl (judge policy facts) (judgingStart catalog policy facts sources))).scope
        reference =
      judgedAlone catalog policy facts (verdict catalog policy facts sources).1.definitions
        reference := by
  have sorted := (byLine_stable facts.references).ordered
  rw [split, List.pairwise_append] at sorted
  obtain ⟨sortedBefore, _, apart⟩ := sorted
  have start : Ready facts (judgingStart catalog policy facts sources).scope 0
      (judgingStart catalog policy facts sources) := .outside []
  have ready := start.foldl policy sortedBefore (fun _ _ => Nat.zero_le _)
    (fun other member => apart other member reference List.mem_cons_self) (Nat.zero_le _)
  have covers : Visibility.IsOverlay catalog (judgingStart catalog policy facts sources).scope :=
    isOverlay_definitions (isOverlay_addRequires catalog policy facts sources) facts
  rw [Visibility.IsOverlay] at covers
  rw [(ready.narrow (Nat.le_refl _)).2.1, covers]
  exact classify_seenFrom catalog policy facts _ reference

theorem stemsFrom_iff :
    StemsFrom catalog policy facts sources finding reference ↔
      reference ∈ facts.references ∧ judgedAlone catalog policy facts
        (verdict catalog policy facts sources).1.definitions reference = some finding := by
  have members := (byLine_stable facts.references).permuted.mem_iff (a := reference)
  constructor
  · rintro ⟨before, after, split, found⟩
    refine ⟨members.mp ?_, (classify_at_turn split).symm.trans found⟩
    rw [split]
    exact List.mem_append_right _ List.mem_cons_self
  · rintro ⟨member, found⟩
    obtain ⟨before, after, split⟩ := List.append_of_mem (members.mpr member)
    exact ⟨before, after, split, (classify_at_turn split).trans found⟩

/-- The findings of a file are those that stem from its references. -/
theorem mem_findings_iff_stemsFrom :
    finding ∈ (verdict catalog policy facts sources).1.findings ↔
      ∃ reference, StemsFrom catalog policy facts sources finding reference := by
  rw [mem_findings_iff]
  exact exists_congr fun reference => stemsFrom_iff.symm

/-- Nothing at or below an own global is found. -/
theorem judgedAlone_of_own {defined : Fields Shape}
    (own : (scopeAt catalog facts defined reference.line).lookup (Dotted.root reference.name) =
      some .own) :
    judgedAlone catalog policy facts defined reference = none := by
  obtain ⟨rest, path⟩ := Dotted.segments_eq_root_cons reference.name
  exact classify_of_own (resolve_of_lookup path own)

/-- A global that the definitions of a file make an own name is the root of no finding and of no
reference that one stems from. -/
theorem root_ne_of_own {name : String}
    (own : Fields.get? name (verdict catalog policy facts sources).1.definitions = some .own) :
    (∀ finding reference, StemsFrom catalog policy facts sources finding reference →
        Dotted.root reference.name ≠ name) ∧
      ∀ finding ∈ (verdict catalog policy facts sources).1.findings,
        Dotted.root finding.name ≠ name := by
  have accepted (finding : Finding) (reference : Reference)
      (stems : StemsFrom catalog policy facts sources finding reference) :
      Dotted.root reference.name ≠ name := by
    rintro rfl
    obtain ⟨_, found⟩ := stemsFrom_iff.mp stems
    cases (judgedAlone_of_own (lookup_scopeAt own reference.line)).symm.trans found
  refine ⟨accepted, ?_⟩
  intro finding member root
  obtain ⟨reference, stems⟩ := mem_findings_iff_stemsFrom.mp member
  have same := judgedAlone_root (stemsFrom_iff.mp stems).2
  exact accepted finding reference stems (same.symm.trans root)

end Turns

end GlobalAudit.Audit
