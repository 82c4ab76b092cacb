import GlobalAudit.Proofs.FindingOrigin
import GlobalAudit.Proofs.SharedSources

/-! The end of the globals. A file may mark a line behind which it defines no more globals. A global
that it writes before the mark is its own from then on, on all lines; any other global that nothing
else brings into view is found wherever it is written. -/
namespace GlobalAudit

open Visibility

variable {σ : Type}

namespace Audit

/-! ## Names that requires bind -/

/-- The names that a require binds on an answer: the globals that the module may define, and the local
that receives it. -/
def boundOnAnswer (require : Require) : LoadAnswer → List String
  | .error _ => []
  | .ok loaded =>
    (loaded.newGlobals.filter (isAllowed require.name)).map NewGlobal.name ++ require.receiver.toList

/-- The names that a require binds. Without resolution there is only the receiver. -/
def boundBy [Loader σ] (catalog : Catalog) (policy : Policy) (loading : Loading σ)
    (require : Require) : List String :=
  if policy.resolve then
    boundOnAnswer require (loadRequired catalog require.name loading.sources).1
  else require.receiver.toList

/-- The names that requires bind one after the other. -/
def boundByAll [Loader σ] (catalog : Catalog) (policy : Policy) : List Require → Loading σ → List String
  | [], _ => []
  | require :: rest, loading =>
    boundBy catalog policy loading require ++
      boundByAll catalog policy rest (addRequire catalog policy loading require)

/-- The names that the requires of a file bind. -/
def requiredNames [Loader σ] (catalog : Catalog) (policy : Policy) (facts : Facts) (sources : σ) :
    List String :=
  boundByAll catalog policy facts.requires ⟨(ofCatalog catalog).pushLayer, [], sources⟩

section Names

variable {name : String}

theorem mem_names_define (other : String) (shape : Shape) (scope : Visibility) :
    name ∈ Fields.names (scope.define other shape).tip ↔
      name = other ∨ name ∈ Fields.names scope.tip := by
  rw [tip_define, Fields.mem_names_put]

theorem exists_defineGlobal_eq (required : String) (exports : Shape) (global : NewGlobal)
    (scope : Visibility) :
    ∃ shape, defineGlobal required exports global scope = scope.define global.name shape := by
  rw [defineGlobal]
  split
  · exact ⟨_, rfl⟩
  · dsimp only
    split
    · exact ⟨_, rfl⟩
    · exact ⟨_, rfl⟩

theorem mem_names_addGlobal (require : Require) (exports : Shape) (loading : Loading σ)
    (global : NewGlobal) :
    name ∈ Fields.names (addGlobal require exports loading global).scope.tip ↔
      (isAllowed require.name global = true ∧ global.name = name) ∨
        name ∈ Fields.names loading.scope.tip := by
  rw [addGlobal]
  split
  · rename_i allowed
    obtain ⟨shape, defined⟩ := exists_defineGlobal_eq require.name exports global loading.scope
    rw [defined, mem_names_define]
    simp only [allowed, true_and, eq_comm]
  · rename_i refused
    exact (or_iff_right fun permitted => refused permitted.1).symm

theorem mem_names_foldl_addGlobal (require : Require) (exports : Shape) (globals : List NewGlobal)
    (loading : Loading σ) :
    name ∈ Fields.names (globals.foldl (addGlobal require exports) loading).scope.tip ↔
      name ∈ (globals.filter (isAllowed require.name)).map NewGlobal.name ∨
        name ∈ Fields.names loading.scope.tip := by
  induction globals generalizing loading with
  | nil => simp
  | cons global rest ih =>
      rw [List.foldl_cons, ih, mem_names_addGlobal, List.filter_cons]
      split
      · rename_i allowed
        rw [List.map_cons, List.mem_cons, or_left_comm, or_assoc]
        simp only [allowed, true_and, eq_comm]
      · rename_i refused
        have notThis : ¬ (isAllowed require.name global = true ∧ global.name = name) :=
          fun permitted => refused permitted.1
        rw [or_iff_right notThis]

theorem mem_names_defineReceiver (require : Require) (shape : Shape) (scope : Visibility) :
    name ∈ Fields.names (defineReceiver require shape scope).tip ↔
      name ∈ require.receiver.toList ∨ name ∈ Fields.names scope.tip := by
  rw [defineReceiver]
  cases require.receiver with
  | none => simp
  | some receiver =>
      dsimp only
      rw [mem_names_define, Option.toList_some, List.mem_singleton]

theorem mem_names_receive (require : Require) (answer : LoadAnswer) (loading : Loading σ) :
    name ∈ Fields.names (receive require answer loading).scope.tip ↔
      name ∈ boundOnAnswer require answer ∨ name ∈ Fields.names loading.scope.tip := by
  cases answer with
  | error reason => simp [receive, boundOnAnswer]
  | ok loaded =>
      simp only [receive, boundOnAnswer]
      rw [mem_names_defineReceiver, mem_names_foldl_addGlobal, List.mem_append, or_left_comm, or_assoc]

theorem mem_names_addRequire [Loader σ] (catalog : Catalog) (policy : Policy)
    (loading : Loading σ) (require : Require) :
    name ∈ Fields.names (addRequire catalog policy loading require).scope.tip ↔
      name ∈ boundBy catalog policy loading require ∨ name ∈ Fields.names loading.scope.tip := by
  cases resolves : policy.resolve with
  | false =>
      simp only [addRequire, boundBy, resolves, Bool.false_eq_true, if_false]
      exact mem_names_defineReceiver require .own loading.scope
  | true =>
      rw [addRequire_eq catalog policy resolves, boundBy, if_pos resolves]
      exact mem_names_receive require _ loading

theorem mem_names_foldl_addRequire [Loader σ] (catalog : Catalog) (policy : Policy)
    (requires : List Require) (loading : Loading σ) :
    name ∈ Fields.names (requires.foldl (addRequire catalog policy) loading).scope.tip ↔
      name ∈ boundByAll catalog policy requires loading ∨ name ∈ Fields.names loading.scope.tip := by
  induction requires generalizing loading with
  | nil => simp [boundByAll]
  | cons require rest ih =>
      rw [List.foldl_cons, ih, mem_names_addRequire, boundByAll, List.mem_append, or_left_comm,
        or_assoc]

/-- The layer over the catalog has the names that the requires bind, and no others. -/
theorem mem_names_addRequires [Loader σ] (catalog : Catalog) (policy : Policy) (facts : Facts)
    (sources : σ) :
    name ∈ Fields.names (addRequires catalog policy facts sources).scope.tip ↔
      name ∈ requiredNames catalog policy facts sources := by
  rw [addRequires, mem_names_foldl_addRequire]
  exact or_iff_left List.not_mem_nil

end Names

/-! ## Names that nothing else binds -/

section Unbound

variable {catalog : Catalog} {facts : Facts} {scope : Visibility} {name : String} {marker : Nat}

/-- A name that nothing else binds is bound if and only if it is written before the mark. -/
theorem get?_tip_definitions_of_unbound (covers : IsOverlay catalog scope)
    (unbound : Fields.get? name scope.tip = none) (uncataloged : catalog.get? name = none)
    (notReturned : facts.returned ≠ some name) (noModule : facts.declaration = none)
    (ended : facts.endOfGlobals = some marker) :
    Fields.get? name (definitions facts scope).tip =
      if name ∈ facts.rootWrites (· < marker) then some .own else none := by
  have outside : addOpenModule facts (addReturned facts scope) = addReturned facts scope := by
    rw [addOpenModule, noModule]
  have absent : Fields.get? name (addReturned facts scope).tip = none :=
    (get?_tip_addReturned.trans (if_neg notReturned)).trans unbound
  have hidden : (addReturned facts scope).lookup name = none := by
    have layered := isOverlay_addReturned covers facts
    rw [IsOverlay] at layered
    rw [layered, lookup_overlay, absent, uncataloged]
    rfl
  rw [definitions, outside, addEarlyGlobals, ended]
  dsimp only
  rw [get?_tip_foldl_defineNew, absent, hidden]
  simp only [and_true]

theorem scopeAt_of_no_module (noModule : facts.declaration = none) (defined : Fields Shape)
    (line : Nat) : scopeAt catalog facts defined line = overlay catalog defined := by
  rw [scopeAt, strictLine?, noModule]

end Unbound

/-- A write of a name that is not visible is found. -/
theorem classify_of_hidden {policy : Policy} {scope : Visibility} {reference : Reference}
    (judged : policy.tolerant = false) (write : reference.isWrite = true)
    (plain : Dotted.isDotted reference.name = false) (hidden : scope.lookup reference.name = none) :
    classify policy scope reference = some ⟨reference.line, .undefined, true, reference.name⟩ := by
  have resolved : scope.resolve reference.name = .undefined reference.name := by
    simp only [Visibility.resolve, Dotted.segments_of_not_dotted plain, hidden]
  rw [classify, judged, if_neg Bool.false_ne_true, resolved, write]

theorem message_of_undefined_write (line : Nat) (name : String) :
    Finding.message ⟨line, .undefined, true, name⟩ = s!"{line}: undefined set {name}" := by
  have words : ": " ++ ("undefined" ++ (" " ++ ("set" ++ " "))) = ": undefined set " := by decide
  simp only [Finding.message, FindingKind.name, accessName, if_true, toString, ← words,
    String.append_assoc]

section Judged

variable [Loader σ] {catalog : Catalog} {policy : Policy} {facts : Facts} {sources : σ}
  {name : String} {marker : Nat}

/-- What each line sees of a name that nothing else binds. -/
theorem lookup_scopeAt_of_unbound (ended : facts.endOfGlobals = some marker)
    (noModule : facts.declaration = none) (uncataloged : catalog.get? name = none)
    (unrequired : name ∉ requiredNames catalog policy facts sources)
    (notReturned : facts.returned ≠ some name) (line : Nat) :
    (scopeAt catalog facts (verdict catalog policy facts sources).1.definitions line).lookup name =
      if name ∈ facts.rootWrites (· < marker) then some .own else none := by
  have unbound : Fields.get? name (addRequires catalog policy facts sources).scope.tip = none := by
    rw [Fields.get?_eq_none_iff, mem_names_addRequires]
    exact unrequired
  have bound : Fields.get? name (verdict catalog policy facts sources).1.definitions =
      if name ∈ facts.rootWrites (· < marker) then some .own else none :=
    get?_tip_definitions_of_unbound (isOverlay_addRequires catalog policy facts sources) unbound
      uncataloged notReturned noModule ended
  rw [scopeAt_of_no_module noModule, lookup_overlay, bound, uncataloged, Option.or_none]

end Judged

end Audit

namespace Listing

open Audit

/-- The mark separates the globals of a file from stray ones. Of the names that neither the catalog
nor a require nor the returned module binds, one that the file writes before the mark is accepted on
all lines, with all that is below it; any other is found on each line where it is written. -/
theorem endOfGlobals_separates [Loader σ] {catalog : Catalog} {policy : Policy} {listing : Listing}
    {sources : σ} {marker : Nat} {name : String} (judged : policy.tolerant = false)
    (ended : (listing.facts catalog).endOfGlobals = some marker)
    (noModule : (listing.facts catalog).declaration = none)
    (plain : Dotted.isDotted name = false) (uncataloged : catalog.get? name = none)
    (unrequired : name ∉ requiredNames catalog policy (listing.facts catalog) sources)
    (notReturned : (listing.facts catalog).returned ≠ some name) :
    let facts := listing.facts catalog
    let findings := (listing.audit catalog policy sources).1.findings
    let early := ∃ write ∈ facts.references,
      write.isWrite = true ∧ write.name = name ∧ write.line < marker
    (early →
        (∀ finding reference, StemsFrom catalog policy facts sources finding reference →
          Dotted.root reference.name ≠ name) ∧
        ∀ finding ∈ findings, Dotted.root finding.name ≠ name) ∧
      (¬ early → ∀ write ∈ facts.references, write.isWrite = true → write.name = name →
        ∃ finding ∈ findings, StemsFrom catalog policy facts sources finding write ∧
          finding = ⟨write.line, .undefined, true, name⟩ ∧
          finding.message = s!"{write.line}: undefined set {name}") := by
  intro facts findings early
  have visible := lookup_scopeAt_of_unbound ended noModule uncataloged unrequired notReturned
  have isEarly : name ∈ facts.rootWrites (· < marker) ↔ early := by
    rw [Facts.mem_rootWrites]
    constructor
    · rintro ⟨write, member, isWrite, before, _, whole⟩
      exact ⟨write, member, isWrite, whole, of_decide_eq_true before⟩
    · rintro ⟨write, member, isWrite, whole, before⟩
      exact ⟨write, member, isWrite, decide_eq_true before, whole ▸ plain, whole⟩
  constructor
  · intro isBefore
    have accepted (finding : Finding) (reference : Reference)
        (stems : StemsFrom catalog policy facts sources finding reference) :
        Dotted.root reference.name ≠ name := by
      intro root
      have own := visible reference.line
      rw [if_pos (isEarly.mpr isBefore), ← root] at own
      obtain ⟨_, found⟩ := stemsFrom_iff.mp stems
      cases (judgedAlone_of_own own).symm.trans found
    refine ⟨accepted, ?_⟩
    intro finding member root
    obtain ⟨reference, stems⟩ := mem_findings_iff_stemsFrom.mp member
    have same := judgedAlone_root (stemsFrom_iff.mp stems).2
    exact accepted finding reference stems (same.symm.trans root)
  · rintro notBefore write member isWrite rfl
    have hidden := visible write.line
    rw [if_neg (mt isEarly.mp notBefore)] at hidden
    have stems : StemsFrom catalog policy facts sources ⟨write.line, .undefined, true, write.name⟩
        write := stemsFrom_iff.mpr ⟨member, classify_of_hidden judged isWrite plain hidden⟩
    exact ⟨_, mem_findings_iff_stemsFrom.mpr ⟨write, stems⟩, stems, rfl,
      message_of_undefined_write write.line write.name⟩

/-- A file that writes a global, marks the end, writes another and reads below the first. -/
def markedFile : Listing where
  dialect := .lua51
  functions := [{
    header := "main <t.lua:0,0>"
    instructions :=
      [⟨1, 1, .newTable, 0, some 0, some 0, none⟩,
       ⟨2, 1, .setGlobal, 0, some (-1), none, some "config"⟩,
       ⟨3, 2, .loadBool, 0, some 1, some 0, none⟩,
       ⟨4, 2, .setGlobal, 0, some (-2), none, some "_END_GLOBALS"⟩,
       ⟨5, 3, .loadK, 0, some (-4), none, some "1"⟩,
       ⟨6, 3, .setGlobal, 0, some (-3), none, some "late"⟩,
       ⟨7, 4, .getGlobal, 0, some (-1), none, some "config"⟩,
       ⟨8, 4, .getTable, 0, some 0, some (-5), some "\"path\""⟩,
       ⟨9, 4, .return, 0, some 1, none, none⟩]
    registers := Registers.empty }]

theorem markedFile_separated :
    (markedFile.facts .empty).endOfGlobals = some 2 ∧
      ⟨4, "config.path", false⟩ ∈ (markedFile.facts .empty).references ∧
      (∀ finding, ¬ StemsFrom .empty ⟨false, true⟩ (markedFile.facts .empty)
        ([] : List Source) finding ⟨4, "config.path", false⟩) ∧
      ∃ finding ∈ (markedFile.audit .empty ⟨false, true⟩ ([] : List Source)).1.findings,
        finding.message = "3: undefined set late" := by
  have ended : (markedFile.facts .empty).endOfGlobals = some 2 := by decide
  have noModule : (markedFile.facts .empty).declaration = none := by decide
  have notReturned (name : String) : (markedFile.facts .empty).returned ≠ some name := by
    have nothing : (markedFile.facts .empty).returned = none := by decide
    rw [nothing]
    exact Option.some_ne_none name |>.symm
  have unrequired (name : String) :
      name ∉ requiredNames .empty ⟨false, true⟩ (markedFile.facts .empty)
        ([] : List Source) := by
    have nothing : (markedFile.facts .empty).requires = [] := by decide
    rw [requiredNames, nothing]
    exact List.not_mem_nil
  have plainEarly : Dotted.isDotted "config" = false := by decide
  have plainLate : Dotted.isDotted "late" = false := by decide
  obtain ⟨accepted, _⟩ := endOfGlobals_separates rfl ended noModule plainEarly rfl
    (unrequired "config") (notReturned "config")
  obtain ⟨_, stray⟩ := endOfGlobals_separates rfl ended noModule plainLate rfl
    (unrequired "late") (notReturned "late")
  refine ⟨ended, by decide, ?_, ?_⟩
  · intro finding stems
    have early : (⟨1, "config", true⟩ : Reference) ∈ (markedFile.facts .empty).references := by decide
    exact (accepted ⟨_, early, rfl, rfl, by decide⟩).1 finding _ stems (by decide)
  · obtain ⟨finding, member, _, _, message⟩ := stray (by decide) ⟨3, "late", true⟩ (by decide) rfl rfl
    exact ⟨finding, member, message⟩

end Listing

end GlobalAudit
