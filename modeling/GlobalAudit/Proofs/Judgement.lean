import GlobalAudit.Proofs.Definitions
import GlobalAudit.Proofs.FirstOccurrences

/-! Judging a file reference by reference. The audit goes through the references in order of their
lines, enters a strict module on the way and leaves out what it has reported before. Each reference
is nevertheless judged as if it stood alone: what is visible to it follows from its line. -/
namespace GlobalAudit.Audit

open Visibility

/-! ## The scope of a line -/

/-- The own names behind a strict declaration, with repetitions. -/
def ownNames (references : List Reference) (declared : Nat) : List String :=
  (references.filter fun reference =>
    reference.isWrite && declared ≤ reference.line && !Dotted.isDotted reference.name).map
      Reference.name ++ moduleFields

/-- What a strict module sees: the definitions of the file, then its own names where they are not
defined, then the declaring function with the shape it has outside. -/
def insideEntries (catalog : Catalog) (references : List Reference) (declared : Nat)
    (defined : Fields Shape) : Fields Shape :=
  let added := (ownNames references declared).eraseDups.filter fun name =>
    !(Fields.names defined).contains name
  let bound := defined ++ added.map fun name => (name, Shape.own)
  if moduleName ∈ Fields.names bound then bound
  else bound ++ ((overlay catalog defined).lookup moduleName).toList.map fun shape =>
    (moduleName, shape)

/-- What is visible on a line: from a strict declaration on the names of the module and nothing of
the catalog, else the catalog under the definitions of the file. -/
def scopeAt (catalog : Catalog) (facts : Facts) (defined : Fields Shape) (line : Nat) : Visibility :=
  match strictLine? facts with
  | none => overlay catalog defined
  | some declared =>
    if declared ≤ line then
      overlay .empty (insideEntries catalog facts.references declared defined)
    else overlay catalog defined

theorem strictEntries_overlay (catalog : Catalog) (facts : Facts) (declared : Nat)
    (defined : Fields Shape) :
    strictEntries facts declared (overlay catalog defined) =
      insideEntries catalog facts.references declared defined := by
  have added : ((facts.rootWrites (declared ≤ ·) ++ moduleFields).filter
        fun name => !(Fields.names defined).contains name).eraseDups =
      (ownNames facts.references declared).eraseDups.filter
        fun name => !(Fields.names defined).contains name := by
    rw [FirstOccurrences.eraseDups_filter, ownNames, Facts.rootWrites,
      FirstOccurrences.eraseDups_eraseDups_append]
  have tip : (overlay catalog defined).tip = defined := rfl
  rw [strictEntries, insideEntries, Fields.foldl_putNew, tip, added]
  cases outside : (overlay catalog defined).lookup moduleName with
  | none => simp only [Option.toList_none, List.map_nil, List.append_nil, ite_self]
  | some shape =>
      simp only [Fields.putNew, Fields.isSome_get?_iff, Option.toList_some, List.map_cons,
        List.map_nil]

theorem get?_insideEntries (catalog : Catalog) (references : List Reference) (declared : Nat)
    (defined : Fields Shape) (name : String) :
    Fields.get? name (insideEntries catalog references declared defined) =
      (Fields.get? name defined).or
        ((if name ∈ ownNames references declared then some .own else none).or
          (if name = moduleName then catalog.get? name else none)) := by
  have bound : ∀ other, Fields.get? other (defined ++
        ((ownNames references declared).eraseDups.filter fun name =>
          !(Fields.names defined).contains name).map fun name => (name, Shape.own)) =
      (Fields.get? other defined).or
        (if other ∈ ownNames references declared then some .own else none) := by
    intro other
    rw [Fields.get?_append, Fields.get?_map other fun _ => Shape.own]
    cases found : Fields.get? other defined with
    | some shape => rfl
    | none =>
        have absent := (Fields.get?_eq_none_iff other defined).mp found
        simp [List.mem_filter, List.mem_eraseDups, absent]
  rw [insideEntries, ← Option.or_assoc, ← bound]
  split
  · rename_i present
    obtain ⟨shape, found⟩ := Option.isSome_iff_exists.mp ((Fields.isSome_get?_iff _ _).mpr present)
    by_cases same : name = moduleName
    · rw [same, found, Option.some_or]
    · rw [if_neg same, Option.or_none]
  · rename_i missing
    have absent := (Fields.get?_eq_none_iff _ _).mpr missing
    have undefined : Fields.get? moduleName defined = none := by
      rw [bound] at absent
      exact (Option.or_eq_none_iff.mp absent).1
    rw [Fields.get?_append, lookup_overlay, undefined, Option.none_or]
    by_cases same : name = moduleName
    · rw [if_pos same, same, absent, Option.none_or, Option.none_or]
      cases catalog.get? moduleName <;> simp [Fields.get?]
    · rw [if_neg same]
      cases catalog.get? moduleName <;> simp [Fields.get?, Ne.symm same]

/-- What the file defines is visible on every line. -/
theorem lookup_scopeAt {catalog : Catalog} {facts : Facts} {defined : Fields Shape} {name : String}
    {shape : Shape} (bound : Fields.get? name defined = some shape)
    (line : Nat) : (scopeAt catalog facts defined line).lookup name = some shape := by
  rw [scopeAt]
  split
  · rw [lookup_overlay, bound, Option.some_or]
  · split
    · rw [lookup_overlay, get?_insideEntries, bound, Option.some_or, Option.some_or]
    · rw [lookup_overlay, bound, Option.some_or]

/-! ## One reference -/

/-- Resolutions that differ at most in the order of the fields of a table. -/
inductive ResolvedAlike : Resolution → Resolution → Prop where
  | defined {first second : Shape} (alike : first.Alike second) :
      ResolvedAlike (.defined first) (.defined second)
  | beyond {first second : Shape} (alike : first.Alike second) :
      ResolvedAlike (.beyond first) (.beyond second)
  | undefined (missing : String) : ResolvedAlike (.undefined missing) (.undefined missing)

theorem ResolvedAlike.refl (resolution : Resolution) : ResolvedAlike resolution resolution := by
  cases resolution with
  | defined shape => exact .defined (.refl shape)
  | beyond shape => exact .beyond (.refl shape)
  | undefined missing => exact .undefined missing

theorem resolvedAlike_shape {first second : Shape} (alike : first.Alike second) (walked : String)
    (rest : List String) : ResolvedAlike (first.resolve walked rest) (second.resolve walked rest) := by
  cases alike with
  | refl => exact .refl _
  | @table left right same =>
      cases rest with
      | nil => exact .defined (.table same)
      | cons segment more =>
          simp only [Shape.resolve, same segment]
          cases Fields.get? segment right with
          | some inner => exact .refl _
          | none =>
              dsimp only
              split
              · exact .beyond (.table same)
              · exact .undefined _

theorem resolvedAlike_scope {first second : Visibility} (name : String)
    (alike : ∀ root, Shape.BoundAlike (first.lookup root) (second.lookup root)) :
    ResolvedAlike (first.resolve name) (second.resolve name) := by
  rw [Visibility.resolve, Visibility.resolve]
  cases Dotted.segments name with
  | nil => exact .undefined name
  | cons root rest =>
      dsimp only
      generalize first.lookup root = left, second.lookup root = right, alike root = bound
      cases bound with
      | absent => exact .undefined root
      | present shapes => exact resolvedAlike_shape shapes root rest

/-- Where names are bound to shapes that are alike, a reference is judged alike. -/
theorem classify_congr (policy : Policy) {first second : Visibility} (reference : Reference)
    (alike : ∀ root, Shape.BoundAlike (first.lookup root) (second.lookup root)) :
    classify policy first reference = classify policy second reference := by
  have marker {left right : Shape} (shapes : left.Alike right) : left.isOwn = right.isOwn := by
    cases shapes <;> rfl
  have resolved := resolvedAlike_scope reference.name alike
  rw [classify, classify]
  split
  · rfl
  · generalize first.resolve reference.name = left, second.resolve reference.name = right at resolved
    cases resolved with
    | defined shapes => simp only [classify.redefinition, marker shapes]
    | beyond shapes => simp only [classify.redefinition, marker shapes]
    | undefined missing => rfl

/-! ## The run -/

/-- What the audit sees of a file on a line, from the scope it starts with. -/
def seenFrom (facts : Facts) (outer : Visibility) (line : Nat) : Visibility :=
  match strictLine? facts with
  | none => outer
  | some declared =>
    if declared ≤ line then outer.pushBarrier (strictEntries facts declared outer) else outer

/-- The states between two references of which the second is not before `line`: the module is not
entered yet, or its declaration is behind. -/
inductive Ready (facts : Facts) (outer : Visibility) (line : Nat) : Judging → Prop where
  | outside (findings : List Finding) : Ready facts outer line ⟨outer, false, findings⟩
  | inside {declared : Nat} (strict : strictLine? facts = some declared) (passed : declared ≤ line)
      (findings : List Finding) :
      Ready facts outer line
        ⟨outer.pushBarrier (strictEntries facts declared outer), true, findings⟩

namespace Ready

variable {facts : Facts} {outer : Visibility} {line next : Nat} {judging : Judging}

/-- Narrowing gives the next reference the scope of its line, whether or not it happens now. -/
theorem narrow (ready : Ready facts outer line judging) (later : line ≤ next) :
    Ready facts outer next (Audit.narrow facts next judging) ∧
      (Audit.narrow facts next judging).scope = seenFrom facts outer next ∧
      (Audit.narrow facts next judging).findings = judging.findings := by
  cases ready with
  | outside findings =>
      cases strict : strictLine? facts with
      | none =>
          simp only [Audit.narrow, seenFrom, strict, and_self, and_true]
          exact .outside findings
      | some declared =>
          by_cases reached : declared ≤ next
          · simp only [Audit.narrow, seenFrom, strict, reached, Bool.not_false, decide_true,
              Bool.and_self, if_true, and_self, and_true]
            exact .inside strict reached findings
          · simp only [Audit.narrow, seenFrom, strict, reached, decide_false, Bool.and_false,
              Bool.false_eq_true, if_false, and_self, and_true]
            exact .outside findings
  | @inside declared strict passed findings =>
      have reached : declared ≤ next := Nat.le_trans passed later
      simp only [Audit.narrow, seenFrom, strict, reached, Bool.not_true, Bool.false_and,
        Bool.false_eq_true, if_false, if_true, and_self, and_true]
      exact .inside strict reached findings

theorem report (ready : Ready facts outer line judging) (finding : Option Finding) :
    Ready facts outer line (Audit.report finding judging) := by
  cases finding with
  | none => exact ready
  | some finding =>
      rw [Audit.report]
      split
      · exact ready
      · cases ready with
        | outside findings => exact .outside _
        | inside strict passed findings => exact .inside strict passed _

end Ready

theorem report_findings (finding : Option Finding) (judging : Judging) :
    (report finding judging).findings = finding.toList.foldl FirstOccurrences.add judging.findings := by
  cases finding with
  | none => rfl
  | some finding =>
      simp only [report, Option.toList_some, List.foldl_cons, List.foldl_nil, FirstOccurrences.add]
      split <;> rfl

/-- References in order of their lines are each judged in the scope of their line. -/
theorem foldl_judge_findings (policy : Policy) (facts : Facts) (outer : Visibility)
    {references : List Reference} (sorted : references.Pairwise fun first second =>
      first.line ≤ second.line) {line : Nat} (behind : ∀ reference ∈ references, line ≤ reference.line)
    {judging : Judging} (ready : Ready facts outer line judging) :
    (references.foldl (judge policy facts) judging).findings =
      (references.filterMap fun reference =>
        classify policy (seenFrom facts outer reference.line) reference).foldl
          FirstOccurrences.add judging.findings := by
  induction references generalizing judging line with
  | nil => rfl
  | cons reference rest ih =>
      -- The lines only grow, so a scope that was narrowed once stays right for what follows.
      obtain ⟨ordered, sortedRest⟩ := List.pairwise_cons.mp sorted
      obtain ⟨entered, scope, findings⟩ := ready.narrow (behind reference List.mem_cons_self)
      rw [List.foldl_cons, judge, ih sortedRest ordered (entered.report _), report_findings, findings,
        scope]
      cases verdict : classify policy (seenFrom facts outer reference.line) reference with
      | none => simp only [List.filterMap_cons, verdict, Option.toList_none, List.foldl_nil]
      | some finding =>
          simp only [List.filterMap_cons, verdict, Option.toList_some, List.foldl_cons, List.foldl_nil]

/-! ## The order of the lines -/

/-- The references by line, those of one line in the order in which they were found. -/
structure StableByLine (references sorted : List Reference) : Prop where
  permuted : sorted.Perm references
  ordered : sorted.Pairwise fun first second => first.line ≤ second.line
  stable : ∀ line, (sorted.filter fun reference => reference.line == line) =
    references.filter fun reference => reference.line == line

theorem byLine_stable (references : List Reference) :
    StableByLine references (byLine references) := by
  have transitive (first second third : Reference) :
      decide (first.line ≤ second.line) = true → decide (second.line ≤ third.line) = true →
        decide (first.line ≤ third.line) = true := by
    simp only [decide_eq_true_eq]
    exact Nat.le_trans
  have total (first second : Reference) :
      (decide (first.line ≤ second.line) || decide (second.line ≤ first.line)) = true := by
    simp only [Bool.or_eq_true, decide_eq_true_eq]
    exact Nat.le_total _ _
  have permuted : (byLine references).Perm references := List.mergeSort_perm references _
  have ordered : (byLine references).Pairwise fun first second => first.line ≤ second.line := by
    exact (List.pairwise_mergeSort transitive total references).imp of_decide_eq_true
  refine ⟨permuted, ordered, fun line => ?_⟩
  -- The references of one line are sorted as they are, so sorting keeps them as a sublist.
  have level : (references.filter fun reference => reference.line == line).Pairwise
      fun first second => decide (first.line ≤ second.line) = true := by
    apply List.Pairwise.imp_of_mem (R := fun _ _ => True)
    · intro first second inFirst inSecond _
      have lineFirst := (List.mem_filter.mp inFirst).2
      have lineSecond := (List.mem_filter.mp inSecond).2
      simp only [beq_iff_eq] at lineFirst lineSecond
      simp only [decide_eq_true_eq, lineFirst, lineSecond, Nat.le_refl]
    · exact List.pairwise_of_forall fun _ _ => True.intro
  have kept := (List.sublist_mergeSort transitive total level List.filter_sublist).filter
    fun reference => reference.line == line
  rw [List.filter_filter] at kept
  simp only [Bool.and_self] at kept
  exact (kept.eq_of_length (permuted.filter _).length_eq.symm).symm

/-! ## The verdict -/

/-- The finding about a reference on its own, from its line and the definitions of the file. -/
def judgedAlone (catalog : Catalog) (policy : Policy) (facts : Facts) (defined : Fields Shape)
    (reference : Reference) : Option Finding :=
  classify policy (scopeAt catalog facts defined reference.line) reference

/-- A finding is about the line of the reference, and about its name or the part of it that leads
nowhere. -/
theorem line_and_name_of_classify {policy : Policy} {scope : Visibility} {reference : Reference}
    {finding : Finding} (found : classify policy scope reference = some finding) :
    finding.line = reference.line ∧
      (finding.name = reference.name ∨ scope.resolve reference.name = .undefined finding.name) := by
  have redefined (shape : Shape) (found : classify.redefinition reference shape = some finding) :
      finding.line = reference.line ∧ finding.name = reference.name := by
    rw [classify.redefinition] at found
    split at found
    · exact Option.some.inj found ▸ ⟨rfl, rfl⟩
    · cases found
  rw [classify] at found
  split at found
  · cases found
  · split at found
    · exact (redefined _ found).imp_right .inl
    · exact (redefined _ found).imp_right .inl
    · rename_i missing lost
      exact Option.some.inj found ▸ ⟨rfl, .inr lost⟩

theorem judgedAlone_line {catalog : Catalog} {policy : Policy} {facts : Facts}
    {defined : Fields Shape} {reference : Reference} {finding : Finding}
    (found : judgedAlone catalog policy facts defined reference = some finding) :
    finding.line = reference.line :=
  (line_and_name_of_classify found).1

theorem classify_seenFrom (catalog : Catalog) (policy : Policy) (facts : Facts)
    (defined : Fields Shape) (reference : Reference) :
    classify policy (seenFrom facts (overlay catalog defined) reference.line) reference =
      judgedAlone catalog policy facts defined reference := by
  rw [judgedAlone, seenFrom, scopeAt]
  split
  · rfl
  · split
    · apply classify_congr
      intro root
      have empty : Catalog.empty.get? root = none := rfl
      rw [lookup_pushBarrier, strictEntries_overlay, lookup_overlay, empty, Option.or_none]
      exact .refl _
    · rfl

variable {σ : Type} [Loader σ]

theorem verdict_findings (catalog : Catalog) (policy : Policy) (facts : Facts) (sources : σ) :
    (verdict catalog policy facts sources).1.findings =
      ((byLine facts.references).filterMap (judgedAlone catalog policy facts
        (verdict catalog policy facts sources).1.definitions)).eraseDups := by
  have covers : IsOverlay catalog (definitions facts (addRequires catalog policy facts sources).scope) :=
    isOverlay_definitions (isOverlay_addRequires catalog policy facts sources) facts
  rw [IsOverlay] at covers
  simp only [verdict]
  rw [foldl_judge_findings policy facts _ (byLine_stable facts.references).ordered
    (fun reference _ => Nat.zero_le reference.line) (.outside []), FirstOccurrences.foldl_add]
  congr 2
  funext reference
  rw [covers]
  exact classify_seenFrom catalog policy facts _ reference

/-- The finding about a reference does not depend on the places of the others. -/
theorem judgedAlone_reorder {facts : Facts} {references : List Reference}
    (order : references.Perm facts.references) (catalog : Catalog) (policy : Policy)
    (sources : σ) (reference : Reference) :
    judgedAlone catalog policy (reorder facts references)
        (verdict catalog policy (reorder facts references) sources).1.definitions reference =
      judgedAlone catalog policy facts (verdict catalog policy facts sources).1.definitions
        reference := by
  have alike := alike_definitions order (isOverlay_addRequires catalog policy facts sources)
  have own (declared : Nat) (name : String) :
      name ∈ ownNames references declared ↔ name ∈ ownNames facts.references declared := by
    rw [ownNames, ownNames, List.mem_append, List.mem_append,
      ((order.filter _).map Reference.name).mem_iff]
  have strict : strictLine? (reorder facts references) = strictLine? facts := rfl
  apply classify_congr
  intro root
  rw [scopeAt, scopeAt, strict]
  split
  · rw [lookup_overlay, lookup_overlay]
    exact (alike.entries root).or _
  · split
    · rw [lookup_overlay, lookup_overlay, get?_insideEntries, get?_insideEntries]
      simp only [reorder, own]
      exact ((alike.entries root).or _).or _
    · rw [lookup_overlay, lookup_overlay]
      exact (alike.entries root).or _

/-- The audit of a file finds what judging each reference on its own finds, in the order of the lines
and each finding once. What is found about a reference depends on its line and on what the file
defines and writes, and not on where the other references stand. -/
theorem findings_eq_judgedAlone (catalog : Catalog) (policy : Policy) (listing : Listing)
    (sources : σ) :
    let facts := listing.facts catalog
    let verdict := (listing.audit catalog policy sources).1
    StableByLine facts.references (byLine facts.references) ∧
      verdict.findings = ((byLine facts.references).filterMap
        (judgedAlone catalog policy facts verdict.definitions)).eraseDups ∧
      (verdict.findings.Pairwise fun first second => first.line ≤ second.line) ∧
      verdict.findings.Nodup ∧
      ∀ references, references.Perm facts.references → ∀ reference,
        judgedAlone catalog policy (reorder facts references)
            (Audit.verdict catalog policy (reorder facts references) sources).1.definitions reference =
          judgedAlone catalog policy facts verdict.definitions reference := by
  intro facts verdict
  have findings : verdict.findings = ((byLine facts.references).filterMap
      (judgedAlone catalog policy facts verdict.definitions)).eraseDups :=
    verdict_findings catalog policy facts sources
  have ordered : ((byLine facts.references).filterMap
      (judgedAlone catalog policy facts verdict.definitions)).Pairwise
        fun first second => first.line ≤ second.line := by
    apply (byLine_stable facts.references).ordered.filterMap
    intro first second before found foundFirst later foundSecond
    rw [judgedAlone_line foundFirst, judgedAlone_line foundSecond]
    exact before
  refine ⟨byLine_stable facts.references, findings, ?_, ?_, ?_⟩
  · rw [findings]
    exact ordered.sublist (FirstOccurrences.eraseDups_sublist _)
  · rw [findings]
    exact FirstOccurrences.nodup_eraseDups _
  · intro references order reference
    exact judgedAlone_reorder order catalog policy sources reference

/-- On the first line a global is read twice, the second declares a strict module, in the third a
function of the file writes and reads a name of the module, and the last reads a global outside. -/
def narrowedFile : Listing where
  dialect := .lua51
  functions := [{
    header := "main <t.lua:0,0>"
    instructions :=
      [⟨1, 1, .getGlobal, 0, some (-1), none, some "x"⟩,
       ⟨2, 1, .getGlobal, 1, some (-1), none, some "x"⟩,
       ⟨3, 2, .getGlobal, 2, some (-2), none, some "module"⟩,
       ⟨4, 2, .loadK, 3, some (-3), none, some "\"m\""⟩,
       ⟨5, 2, .call, 2, some 2, some 1, none⟩,
       ⟨6, 3, .closure, 2, some 0, none, some "0x2"⟩,
       ⟨7, 4, .getGlobal, 3, some (-4), none, some "print"⟩,
       ⟨8, 4, .return, 0, some 1, none, none⟩]
    registers := Registers.empty }, {
    header := "function <t.lua:3,3>"
    instructions :=
      [⟨1, 3, .loadNil, 0, some 0, none, none⟩,
       ⟨2, 3, .setGlobal, 0, some (-1), none, some "y"⟩,
       ⟨3, 3, .getGlobal, 0, some (-1), none, some "y"⟩,
       ⟨4, 3, .return, 0, some 1, none, none⟩]
    registers := Registers.empty }]

def twoFunctions : Catalog := ⟨[("print", .scalar .function), ("module", .scalar .function)]⟩

/-- The references of the function are found last and come between those of the file. The global of the
first line is reported once, and behind the declaration the library is out of view. -/
theorem findings_of_narrowedFile :
    (narrowedFile.facts twoFunctions).references =
        [⟨1, "x", false⟩, ⟨1, "x", false⟩, ⟨2, "module", false⟩, ⟨4, "print", false⟩, ⟨3, "y", true⟩,
          ⟨3, "y", false⟩] ∧
      byLine (narrowedFile.facts twoFunctions).references =
        [⟨1, "x", false⟩, ⟨1, "x", false⟩, ⟨2, "module", false⟩, ⟨3, "y", true⟩, ⟨3, "y", false⟩,
          ⟨4, "print", false⟩] ∧
      (narrowedFile.audit twoFunctions ⟨false, false⟩ ([] : List Source)).1.findings =
        [⟨1, .undefined, false, "x"⟩, ⟨4, .undefined, false, "print"⟩] := by
  have referenced : (narrowedFile.facts twoFunctions).references =
      [⟨1, "x", false⟩, ⟨1, "x", false⟩, ⟨2, "module", false⟩, ⟨4, "print", false⟩, ⟨3, "y", true⟩,
        ⟨3, "y", false⟩] := by decide
  have sorted : byLine (narrowedFile.facts twoFunctions).references =
      [⟨1, "x", false⟩, ⟨1, "x", false⟩, ⟨2, "module", false⟩, ⟨3, "y", true⟩, ⟨3, "y", false⟩,
        ⟨4, "print", false⟩] := by
    rw [referenced]
    simp [byLine, List.mergeSort, List.MergeSort.Internal.splitInTwo]
  obtain ⟨_, findings, _⟩ :=
    findings_eq_judgedAlone twoFunctions ⟨false, false⟩ narrowedFile ([] : List Source)
  refine ⟨referenced, sorted, ?_⟩
  rw [findings, sorted]
  decide

end GlobalAudit.Audit
