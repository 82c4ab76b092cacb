import GlobalAudit.Proofs.FindingOrigin

/-! Locals that receive modules of which the exports are not looked up. Nothing is known of what such
a local holds, so whatever is done through it is accepted, on every line and in every kind of module.
The exception is a local that the main function also returns: it is taken for a table with the fields
that the file writes, and other fields can no longer be followed. -/
namespace GlobalAudit

open Visibility

/-- The locals that receive required modules. -/
def Facts.receivers (facts : Facts) : List String := facts.requires.filterMap Require.receiver

namespace Audit

/-! ## What a receiver is bound to -/

section Bindings

variable {σ : Type} [Loader σ] {catalog : Catalog} {policy : Policy} {facts : Facts} {name : String}

/-- Without looking up exports, requires only make their receivers own names. -/
theorem foldl_addRequire_scope (unresolved : policy.resolve = false) (requires : List Require)
    (loading : Loading σ) :
    (requires.foldl (addRequire catalog policy) loading).scope =
      (requires.filterMap Require.receiver).foldl (fun scope name => scope.define name .own)
        loading.scope := by
  induction requires generalizing loading with
  | nil => rfl
  | cons require rest ih =>
      rw [List.foldl_cons, ih, addRequire, unresolved, if_neg Bool.false_ne_true, defineReceiver]
      cases received : require.receiver with
      | none => rw [List.filterMap_cons_none received]
      | some name => rw [List.filterMap_cons_some received, List.foldl_cons]

theorem get?_tip_addRequires (unresolved : policy.resolve = false) (sources : σ)
    (received : name ∈ facts.receivers) :
    Fields.get? name (addRequires catalog policy facts sources).scope.tip = some .own := by
  rw [addRequires, foldl_addRequire_scope unresolved, get?_tip_foldl_define]
  exact if_pos received

end Bindings

/-! ## The fields of a returned module -/

/-- The file writes a field of a name, or something below the field. -/
def WrittenBelow (references : List Reference) (name field : String) : Prop :=
  ∃ reference ∈ references, reference.isWrite = true ∧
    ∃ rest, Dotted.segments reference.name = name :: field :: rest

theorem exists_touched?_iff {name : String} (plain : Dotted.isDotted name = false) (field : String)
    (reference : Reference) :
    (∃ direct, touched? name reference = some (field, direct)) ↔
      reference.isWrite = true ∧ ∃ rest, Dotted.segments reference.name = name :: field :: rest := by
  rw [touched?_eq]
  cases reference.isWrite with
  | false => simp
  | true =>
      simp only [if_true, true_and]
      constructor
      · rintro ⟨direct, found⟩
        obtain ⟨rest, after, pair⟩ := Option.map_eq_some_iff.mp found
        have whole : reference.name = Dotted.extend name (String.ofList rest) := by
          rw [← String.toList_inj, Dotted.extend, String.toList_append, String.toList_ofList]
          exact (List.isPrefixOf?_eq_some_iff_append_eq.mp after).symm
        obtain ⟨deeper, path⟩ := Dotted.segments_eq_root_cons (String.ofList rest)
        have root : Dotted.root (String.ofList rest) = field := congrArg Prod.fst pair
        refine ⟨deeper, ?_⟩
        rw [whole, Dotted.segments_extend, Dotted.segments_of_not_dotted plain, path, root]
        rfl
      · rintro ⟨rest, path⟩
        obtain ⟨_, deeper, whole, below⟩ := Dotted.eq_extend_of_segments path
        have after : Text.after? (name ++ ".") reference.name.toList = some deeper.toList := by
          rw [whole, Dotted.extend, String.toList_append]
          exact Text.after?_append _ _
        obtain ⟨more, first⟩ := Dotted.segments_eq_root_cons deeper
        have root : Dotted.root deeper = field := (List.cons.inj (first.symm.trans below)).1
        refine ⟨!Dotted.isDotted deeper, ?_⟩
        rw [after, Option.map_some, String.ofList_toList, root]

/-- A table that starts without fields gets those that the file writes or writes below. -/
theorem get?_writtenFields {name : String} (plain : Dotted.isDotted name = false)
    (references : List Reference) (field : String) :
    (WrittenBelow references name field ∧
        Fields.get? field (references.foldl (addModuleField name) []) = some .own) ∨
      (¬ WrittenBelow references name field ∧
        Fields.get? field (references.foldl (addModuleField name) []) = none) := by
  have written (direct : Bool)
      (touched : references.any (fun reference => touched? name reference == some (field, direct)) =
        true) : WrittenBelow references name field := by
    obtain ⟨reference, member, found⟩ := List.any_eq_true.mp touched
    obtain ⟨write, path⟩ :=
      (exists_touched?_iff plain field reference).mp ⟨direct, beq_iff_eq.mp found⟩
    exact ⟨reference, member, write, path⟩
  rw [get?_foldl_addModuleField]
  split
  · rename_i replaced
    exact .inl ⟨written true replaced, rfl⟩
  · rename_i kept
    split
    · rename_i passed
      exact .inl ⟨written false passed, rfl⟩
    · rename_i free
      right
      refine ⟨?_, rfl⟩
      rintro ⟨reference, member, write, path⟩
      obtain ⟨direct, found⟩ := (exists_touched?_iff plain field reference).mpr ⟨write, path⟩
      have touched : references.any
          (fun reference => touched? name reference == some (field, direct)) = true :=
        List.any_eq_true.mpr ⟨reference, member, beq_iff_eq.mpr found⟩
      cases direct with
      | true => exact kept touched
      | false => exact free touched

/-! ## One access -/

/-- What is found about an access to a receiver that is taken for the returned table: the name itself
is written as a global, or something is read below a field that the file does not write. -/
inductive Exposed (references : List Reference) (name : String) (reference : Reference) :
    Finding → Prop where
  | written (write : reference.isWrite = true) (whole : reference.name = name) :
      Exposed references name reference ⟨reference.line, .redefined, true, name⟩
  | unwritten {field next : String} {rest : List String} (read : reference.isWrite = false)
      (path : Dotted.segments reference.name = name :: field :: next :: rest)
      (unknown : ¬ WrittenBelow references name field) :
      Exposed references name reference
        ⟨reference.line, .undefined, false, Dotted.extend name field⟩

section Access

variable {policy : Policy} {scope : Visibility} {references : List Reference} {name : String}
  {reference : Reference} {finding : Finding}

theorem Exposed.whole_iff (path : Dotted.segments reference.name = [name]) :
    Exposed references name reference finding ↔
      reference.isWrite = true ∧ finding = ⟨reference.line, .redefined, true, reference.name⟩ := by
  have whole := Dotted.eq_of_segments path
  constructor
  · intro exposed
    cases exposed with
    | written write => exact ⟨write, by rw [whole]⟩
    | unwritten read deeper => simp [path] at deeper
  · rintro ⟨write, rfl⟩
    rw [whole]
    exact .written write whole

theorem Exposed.below_iff {field : String} {rest : List String}
    (path : Dotted.segments reference.name = name :: field :: rest) :
    Exposed references name reference finding ↔
      reference.isWrite = false ∧ rest ≠ [] ∧ ¬ WrittenBelow references name field ∧
        finding = ⟨reference.line, .undefined, false, Dotted.extend name field⟩ := by
  constructor
  · intro exposed
    cases exposed with
    | written write whole =>
        obtain ⟨plain, -⟩ := Dotted.eq_extend_of_segments path
        rw [whole, Dotted.segments_of_not_dotted plain] at path
        cases path
    | unwritten read deeper unknown =>
        obtain ⟨-, same⟩ := List.cons.inj (path.symm.trans deeper)
        obtain ⟨rfl, rfl⟩ := List.cons.inj same
        exact ⟨read, List.cons_ne_nil _ _, unknown, rfl⟩
  · rintro ⟨read, deeper, unknown, rfl⟩
    obtain ⟨next, more, rfl⟩ := List.exists_cons_of_ne_nil deeper
    exact .unwritten read path unknown

theorem Exposed.root (plain : Dotted.isDotted name = false)
    (exposed : Exposed references name reference finding) : Dotted.root reference.name = name := by
  cases exposed with
  | written write whole => rw [whole, Dotted.root_of_not_dotted plain]
  | unwritten read path unknown =>
      obtain ⟨rest, first⟩ := Dotted.segments_eq_root_cons reference.name
      exact (List.cons.inj (first.symm.trans path)).1

theorem classify_of_table {fields : Fields Shape} (judged : policy.tolerant = false)
    (resolved : scope.resolve reference.name = .defined (.table fields) ∨
      scope.resolve reference.name = .beyond (.table fields)) :
    classify policy scope reference = some finding ↔
      reference.isWrite = true ∧ finding = ⟨reference.line, .redefined, true, reference.name⟩ := by
  have redefined : classify policy scope reference =
      classify.redefinition reference (.table fields) := by
    rw [classify, judged, if_neg Bool.false_ne_true]
    rcases resolved with defined | beyond
    · rw [defined]
    · rw [beyond]
  rw [redefined, classify.redefinition]
  cases reference.isWrite with
  | false => simp
  | true => simp [Shape.isOwn, eq_comm]

/-- An access below a table with the written fields is judged by whether its first field is one of
them. -/
theorem classify_returned_iff (judged : policy.tolerant = false) (plain : Dotted.isDotted name = false)
    (member : reference ∈ references) (root : Dotted.root reference.name = name)
    (bound : scope.lookup name = some (.table (references.foldl (addModuleField name) []))) :
    classify policy scope reference = some finding ↔ Exposed references name reference finding := by
  obtain ⟨rest, path⟩ := Dotted.segments_eq_root_cons reference.name
  rw [root] at path
  have resolved := resolve_of_lookup path bound
  cases rest with
  | nil => rw [classify_of_table judged (.inl resolved), Exposed.whole_iff path]
  | cons field more =>
      rw [Exposed.below_iff path]
      rcases get?_writtenFields plain references field with ⟨written, known⟩ | ⟨unknown, absent⟩
      · rw [Shape.resolve, known] at resolved
        simp [classify_of_own resolved, written]
      · -- A write would itself make the field a known one.
        have read : reference.isWrite = false :=
          Bool.eq_false_iff.mpr fun write => unknown ⟨reference, member, write, more, path⟩
        rw [Shape.resolve, absent] at resolved
        cases more with
        | nil => simp [classify_of_table judged (.inr resolved), read]
        | cons next deep =>
            simp only [List.isEmpty_cons, Bool.false_eq_true, if_false] at resolved
            simp [classify, judged, resolved, read, unknown, eq_comm]

end Access

/-! ## All findings -/

/-- A local that receives a module is an own name on every line, or it is returned, no export hides
it, and it is a table with the written fields on every line. -/
theorem lookup_receiver {σ : Type} [Loader σ] (catalog : Catalog) {policy : Policy} {facts : Facts}
    {name : String}
    (unresolved : policy.resolve = false) (received : name ∈ facts.receivers)
    (sources : σ) (line : Nat) :
    (scopeAt catalog facts (verdict catalog policy facts sources).1.definitions line).lookup name =
      some (if facts.returned = some name ∧ name ∉ facts.exports then
        .table (facts.references.foldl (addModuleField name) [])
      else .own) := by
  have start : Fields.get? name (addRequires catalog policy facts sources).scope.tip = some .own :=
    get?_tip_addRequires unresolved sources received
  have unknown : visibleFields name (addRequires catalog policy facts sources).scope = [] := by
    rw [visibleFields, lookup_of_tip start]
    rfl
  refine lookup_scopeAt ?_ line
  rw [verdict, get?_tip_definitions start, unknown]
  by_cases exported : name ∈ facts.exports
  · simp [exported]
  · by_cases returned : facts.returned = some name
    · simp [exported, returned]
    · simp [exported, returned]

end Audit

namespace Listing

open Audit

/-- With the exports of modules not looked up, something is found about a local that receives one
exactly if the local is the module that the file returns, it is not an export of an open module, and
it is written as a global or read below a field that the file does not write. -/
theorem receiver_findings_iff {σ : Type} [Loader σ] {catalog : Catalog} {policy : Policy}
    {listing : Listing} (judged : policy.tolerant = false) (unresolved : policy.resolve = false)
    (sources : σ)
    {name : String} (received : name ∈ (listing.facts catalog).receivers) (finding : Finding) :
    let facts := listing.facts catalog
    (finding ∈ (listing.audit catalog policy sources).1.findings ∧ Dotted.root finding.name = name) ↔
      Dotted.isDotted name = false ∧ facts.returned = some name ∧ name ∉ facts.exports ∧
        ∃ reference ∈ facts.references, Exposed facts.references name reference finding := by
  intro facts
  rw [audit, mem_findings_iff]
  constructor
  · rintro ⟨⟨reference, member, found⟩, root⟩
    have same : Dotted.root reference.name = name := (judgedAlone_root found).symm.trans root
    have plain : Dotted.isDotted name = false := same ▸ Dotted.isDotted_root reference.name
    have bound := lookup_receiver catalog unresolved received sources reference.line
    split at bound
    · rename_i exposed
      exact ⟨plain, exposed.1, exposed.2, reference, member,
        (classify_returned_iff judged plain member same bound).mp found⟩
    · obtain ⟨rest, path⟩ := Dotted.segments_eq_root_cons reference.name
      rw [same] at path
      have accepted : judgedAlone catalog policy facts _ reference = none :=
        classify_of_own (resolve_of_lookup path bound)
      cases accepted.symm.trans found
  · rintro ⟨plain, returned, hidden, reference, member, exposed⟩
    have bound := lookup_receiver catalog unresolved received sources reference.line
    rw [if_pos ⟨returned, hidden⟩] at bound
    have same : Dotted.root reference.name = name := exposed.root plain
    have found := (classify_returned_iff judged plain member same bound).mpr exposed
    exact ⟨⟨reference, member, found⟩, (judgedAlone_root found).trans same⟩

/-- A file that requires a module, reads below a field of it and may return it. -/
def deepRead (returning : Bool) : Listing where
  dialect := .lua51
  functions := [{
    header := "main <t.lua:0,0>"
    instructions :=
      [⟨1, 1, .getGlobal, 0, some (-1), none, some "require"⟩,
       ⟨2, 1, .loadK, 1, some (-2), none, some "\"foo\""⟩,
       ⟨3, 1, .call, 0, some 2, some 2, none⟩,
       ⟨4, 2, .getTable, 1, some 0, some (-3), some "\"config\""⟩,
       ⟨5, 2, .getTable, 1, some 1, some (-4), some "\"level\""⟩,
       ⟨6, 3, .return, 0, some (if returning then 2 else 1), none, none⟩,
       ⟨7, 3, .return, 0, some 1, none, none⟩]
    registers := Registers.empty.addLocal 0 "M" 4 8 }]

/-- Nothing is found about the module if the file keeps it to itself. -/
theorem deepRead_keeping_accepted :
    "M" ∈ ((deepRead false).facts .empty).receivers ∧
      ⟨2, "M.config.level", false⟩ ∈ ((deepRead false).facts .empty).references ∧
      ∀ finding,
        ¬ (finding ∈ ((deepRead false).audit .empty ⟨false, false⟩ ([] : List Source)).1.findings ∧
          Dotted.root finding.name = "M") := by
  have received : "M" ∈ ((deepRead false).facts .empty).receivers := by decide
  refine ⟨received, by decide, ?_⟩
  intro finding found
  obtain ⟨_, returned, _⟩ :=
    (receiver_findings_iff rfl rfl ([] : List Source) received finding).mp found
  exact absurd returned (by decide)

/-- The same access is found to be undefined if the file returns the module. -/
theorem deepRead_returning_found :
    ⟨2, .undefined, false, "M.config"⟩ ∈
        ((deepRead true).audit .empty ⟨false, false⟩ ([] : List Source)).1.findings ∧
      ¬ ∀ (catalog : Catalog) (policy : Policy) (listing : Listing) (sources : List Source),
        policy.tolerant = false → policy.resolve = false →
        ∀ name ∈ (listing.facts catalog).receivers,
        ∀ finding ∈ (listing.audit catalog policy sources).1.findings,
          Dotted.root finding.name ≠ name := by
  have found : ⟨2, .undefined, false, "M.config"⟩ ∈
      ((deepRead true).audit .empty ⟨false, false⟩ ([] : List Source)).1.findings := by
    rw [audit, mem_findings_iff]
    exact ⟨⟨2, "M.config.level", false⟩, by decide, by decide⟩
  refine ⟨found, ?_⟩
  intro accepted
  exact accepted .empty ⟨false, false⟩ (deepRead true) [] rfl rfl "M" (by decide) _ found
    (by decide)

end Listing

end GlobalAudit
