import GlobalAudit.Proofs.FindingOrigin

/-! The fields of the module that a file returns. A field that is written anywhere in the file belongs
to it: whatever is done with the field or below it is accepted, before the write and behind it, and
whatever else the file says about the module or about itself. -/
namespace GlobalAudit

/-- The reference is to a name or to something below it. -/
def Reference.IsAtOrBelow (name : String) (reference : Reference) : Prop :=
  reference.name = name ∨ ∃ deeper, reference.name = Dotted.extend name deeper

theorem Reference.IsAtOrBelow.exists_segments {name : String} {reference : Reference}
    (below : reference.IsAtOrBelow name) :
    ∃ rest, Dotted.segments reference.name = Dotted.segments name ++ rest := by
  rcases below with same | ⟨deeper, same⟩
  · exact ⟨[], by rw [same, List.append_nil]⟩
  · exact ⟨Dotted.segments deeper, by rw [same, Dotted.segments_extend]⟩

namespace Audit

open Visibility

/-- A shape of which a field is an own name, or which is one itself. -/
inductive OwnsField (field : String) : Shape → Prop where
  | whole : OwnsField field .own
  | table {fields : Fields Shape} (owned : Fields.get? field fields = some .own) :
      OwnsField field (.table fields)

/-- Nothing is found about an access to an owned field or below it. -/
theorem OwnsField.classify_eq_none {name field : String} {shape : Shape} (owns : OwnsField field shape)
    {scope : Visibility} (bound : scope.lookup name = some shape) {reference : Reference}
    {rest : List String} (path : Dotted.segments reference.name = name :: field :: rest)
    (policy : Policy) : classify policy scope reference = none := by
  have resolved := resolve_of_lookup path bound
  cases owns with
  | whole => exact classify_of_own resolved
  | table owned =>
      rw [Shape.resolve, owned] at resolved
      exact classify_of_own resolved

section Returned

variable {facts : Facts} {name field : String}

/-- Writing a field of a name touches the field itself. -/
theorem touched?_of_write {reference : Reference} (write : reference.isWrite = true)
    (whole : reference.name = Dotted.extend name field) (plain : Dotted.isDotted field = false) :
    touched? name reference = some (field, true) := by
  have after : Text.after? (name ++ ".") reference.name.toList = some field.toList := by
    rw [whole, Dotted.extend, String.toList_append]
    exact Text.after?_append _ _
  rw [touched?_eq, if_pos write, after, Option.map_some, String.ofList_toList,
    Dotted.root_of_not_dotted plain, plain]
  rfl

theorem get?_foldl_addModuleField_of_write {reference : Reference}
    (member : reference ∈ facts.references) (write : reference.isWrite = true)
    (whole : reference.name = Dotted.extend name field) (plain : Dotted.isDotted field = false)
    (fields : Fields Shape) :
    Fields.get? field (facts.references.foldl (addModuleField name) fields) = some .own := by
  rw [get?_foldl_addModuleField]
  refine if_pos (List.any_eq_true.mpr ⟨reference, member, ?_⟩)
  rw [touched?_of_write write whole plain]
  exact beq_self_eq_true _

/-- The rules behind the one for the returned module leave it alone or make it an own name, so its
written fields stay owned. -/
theorem exists_ownsField_definitions (returned : facts.returned = some name) {reference : Reference}
    (member : reference ∈ facts.references) (write : reference.isWrite = true)
    (whole : reference.name = Dotted.extend name field) (plain : Dotted.isDotted field = false)
    (scope : Visibility) :
    ∃ shape, Fields.get? name (definitions facts scope).tip = some shape ∧ OwnsField field shape := by
  have bound : Fields.get? name (addReturned facts scope).tip =
      some (.table (facts.references.foldl (addModuleField name) (visibleFields name scope))) :=
    get?_tip_addReturned.trans (if_pos returned)
  refine ⟨_, get?_tip_addEarlyGlobals (get?_tip_addOpenModule bound), ?_⟩
  split
  · exact .whole
  · exact .table (get?_foldl_addModuleField_of_write member write whole plain _)

end Returned

end Audit

namespace Listing

open Audit

/-- A field that the file writes in the module it returns belongs to the file: no finding of the audit
stems from a reference to the field or to something below it, on whatever line, read or written,
whichever modules are required into the name, and in every kind of module. -/
theorem written_field_accepted {σ : Type} [Loader σ] {catalog : Catalog} {listing : Listing}
    {name field : String}
    (returned : (listing.facts catalog).returned = some name) (plain : Dotted.isDotted name = false)
    (plainField : Dotted.isDotted field = false) {write : Reference}
    (written : write ∈ (listing.facts catalog).references) (isWrite : write.isWrite = true)
    (whole : write.name = Dotted.extend name field) (policy : Policy) (sources : σ) :
    let facts := listing.facts catalog
    (∀ finding, finding ∈ (listing.audit catalog policy sources).1.findings ↔
        ∃ reference, StemsFrom catalog policy facts sources finding reference) ∧
      ∀ finding reference, StemsFrom catalog policy facts sources finding reference →
        ¬ reference.IsAtOrBelow (Dotted.extend name field) := by
  intro facts
  refine ⟨fun finding => mem_findings_iff_stemsFrom, ?_⟩
  intro finding reference stems below
  obtain ⟨rest, path⟩ := below.exists_segments
  rw [Dotted.segments_extend, Dotted.segments_of_not_dotted plain,
    Dotted.segments_of_not_dotted plainField] at path
  obtain ⟨shape, bound, owns⟩ := exists_ownsField_definitions returned written isWrite whole
    plainField (addRequires catalog policy facts sources).scope
  have visible : (scopeAt catalog facts (verdict catalog policy facts sources).1.definitions
      reference.line).lookup name = some shape := lookup_scopeAt bound reference.line
  have accepted := owns.classify_eq_none visible path policy
  obtain ⟨_, found⟩ := stemsFrom_iff.mp stems
  cases accepted.symm.trans found

/-- A file that receives a module, reads below a field of it, declares a strict module, writes the
field and returns what it received. -/
def patchedModule : Listing where
  dialect := .lua51
  functions := [{
    header := "main <t.lua:0,0>"
    instructions :=
      [⟨1, 1, .getGlobal, 0, some (-1), none, some "require"⟩,
       ⟨2, 1, .loadK, 1, some (-2), none, some "\"mod\""⟩,
       ⟨3, 1, .call, 0, some 2, some 2, none⟩,
       ⟨4, 2, .getTable, 1, some 0, some (-3), some "\"log\""⟩,
       ⟨5, 2, .getTable, 1, some 1, some (-4), some "\"level\""⟩,
       ⟨6, 2, .getTable, 1, some 1, some (-5), some "\"name\""⟩,
       ⟨7, 3, .getGlobal, 1, some (-6), none, some "module"⟩,
       ⟨8, 3, .loadK, 2, some (-7), none, some "\"app\""⟩,
       ⟨9, 3, .call, 1, some 2, some 1, none⟩,
       ⟨10, 4, .setTable, 0, some (-3), some (-8), some "\"log\" 1"⟩,
       ⟨11, 5, .return, 0, some 2, none, none⟩,
       ⟨12, 5, .return, 0, some 1, none, none⟩]
    registers := Registers.empty.addLocal 0 "M" 4 13 }]

/-- The module has the field as a table in which what the file reads is missing. -/
def patchedSource : Source := .declared ⟨[("mod", .table [("log", .table [])])]⟩

theorem patchedModule_accepted :
    (patchedModule.facts .empty).returned = some "M" ∧
      ⟨4, "M.log", true⟩ ∈ (patchedModule.facts .empty).references ∧
      ⟨2, "M.log.level.name", false⟩ ∈ (patchedModule.facts .empty).references ∧
      (patchedModule.facts .empty).declaration = some ⟨3, some "app", .strict⟩ ∧
      ∀ finding, ¬ StemsFrom .empty ⟨false, true⟩ (patchedModule.facts .empty) [patchedSource] finding
        ⟨2, "M.log.level.name", false⟩ := by
  have returned : (patchedModule.facts .empty).returned = some "M" := by decide
  have written : ⟨4, "M.log", true⟩ ∈ (patchedModule.facts .empty).references := by decide
  refine ⟨returned, written, by decide, by decide, ?_⟩
  intro finding stems
  have field : Dotted.isDotted "log" = false := by decide
  have below : Reference.IsAtOrBelow (Dotted.extend "M" "log") ⟨2, "M.log.level.name", false⟩ :=
    .inr ⟨"level.name", by decide⟩
  obtain ⟨_, accepted⟩ := written_field_accepted returned (by decide) field written rfl
    (by decide) ⟨false, true⟩ [patchedSource]
  exact accepted finding _ stems below

end Listing

end GlobalAudit
