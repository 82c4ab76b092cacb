import GlobalAudit.Proofs.FindingOrigin

/-! Open modules. Behind an open declaration the globals outside stay visible, and everything that
the file writes goes into the module: each such global is an own name of the file on every line,
whatever else binds it. -/
namespace GlobalAudit

open Visibility

theorem Facts.mem_exports_of_open {facts : Facts} {line : Nat} {given : Option String}
    {name : String} (opened : facts.declaration = some ⟨line, given, .open⟩)
    (own : name ∈ moduleFields ∨ ∃ write ∈ facts.references,
      write.isWrite = true ∧ write.name = name ∧ Dotted.isDotted name = false) :
    name ∈ facts.exports := by
  simp only [Facts.exports, opened, List.mem_append]
  rcases own with field | ⟨write, member, isWrite, rfl, plain⟩
  · exact .inr field
  · exact .inl (Facts.mem_rootWrites.mpr ⟨write, member, isWrite, rfl, plain, rfl⟩)

namespace Audit

variable {facts : Facts} {name : String}

/-- Exports are own names, whatever they were bound to before. The root of the module's name is
bound behind them and only if it is not visible, so it replaces none of them. -/
theorem get?_tip_addOpenModule_of_export (exported : name ∈ facts.exports) (scope : Visibility) :
    Fields.get? name (addOpenModule facts scope).tip = some .own := by
  revert exported
  rw [Facts.exports, addOpenModule]
  cases facts.declaration with
  | none => exact fun exported => absurd exported List.not_mem_nil
  | some declaration =>
      obtain ⟨line, given, mode⟩ := declaration
      cases mode with
      | strict => exact fun exported => absurd exported List.not_mem_nil
      | «open» =>
          intro exported
          have own := get?_tip_foldl_define .own (facts.rootWrites (fun _ => true) ++ moduleFields)
            name scope
          rw [if_pos exported] at own
          cases given with
          | none => exact own
          | some outer => exact get?_tip_defineNew_of_bound own _ _

theorem get?_tip_definitions_of_export (exported : name ∈ facts.exports) (scope : Visibility) :
    Fields.get? name (definitions facts scope).tip = some .own :=
  get?_tip_addEarlyGlobals (get?_tip_addOpenModule_of_export exported (addReturned facts scope))

end Audit

namespace Listing

open Audit

/-- In an open module every global of the file is an export. The fields that all modules have and
the undotted names that the file writes, on whatever line, are bound as own names, whichever
catalog, required module or returned module binds them too. No finding stems from a reference to
them or below them, and none has them as its root. -/
theorem openModule_exports {σ : Type} [Loader σ] {catalog : Catalog} {listing : Listing}
    {line : Nat} {given : Option String} {name : String}
    (opened : (listing.facts catalog).declaration = some ⟨line, given, .open⟩)
    (own : name ∈ moduleFields ∨ ∃ write ∈ (listing.facts catalog).references,
      write.isWrite = true ∧ write.name = name ∧ Dotted.isDotted name = false)
    (policy : Policy) (sources : σ) :
    let facts := listing.facts catalog
    let report := (listing.audit catalog policy sources).1
    Fields.get? name report.definitions = some .own ∧
      (∀ finding reference, StemsFrom catalog policy facts sources finding reference →
        Dotted.root reference.name ≠ name) ∧
      ∀ finding ∈ report.findings, Dotted.root finding.name ≠ name := by
  intro facts report
  have exported := Facts.mem_exports_of_open opened own
  have bound : Fields.get? name report.definitions = some .own :=
    get?_tip_definitions_of_export exported (addRequires catalog policy facts sources).scope
  exact ⟨bound, root_ne_of_own bound⟩

/-- A file that receives a module in a local, declares an open module, reads below a global of the
same name, writes the global and returns the local. -/
def openModule : Listing where
  dialect := .lua51
  functions := [{
    header := "main <t.lua:0,0>"
    instructions :=
      [⟨1, 1, .getGlobal, 0, some (-1), none, some "require"⟩,
       ⟨2, 1, .loadK, 1, some (-2), none, some "\"lib\""⟩,
       ⟨3, 1, .call, 0, some 2, some 2, none⟩,
       ⟨4, 2, .getGlobal, 1, some (-3), none, some "module"⟩,
       ⟨5, 2, .loadK, 2, some (-4), none, some "\"app\""⟩,
       ⟨6, 2, .getGlobal, 3, some (-5), none, some "package"⟩,
       ⟨7, 2, .getTable, 3, some 3, some (-6), some "\"seeall\""⟩,
       ⟨8, 2, .call, 1, some 3, some 1, none⟩,
       ⟨9, 3, .getGlobal, 1, some (-7), none, some "x"⟩,
       ⟨10, 3, .getTable, 1, some 1, some (-8), some "\"deep\""⟩,
       ⟨11, 3, .getTable, 1, some 1, some (-9), some "\"down\""⟩,
       ⟨12, 4, .setGlobal, 1, some (-7), none, some "x"⟩,
       ⟨13, 5, .return, 0, some 2, none, none⟩,
       ⟨14, 5, .return, 0, some 1, none, none⟩]
    registers := Registers.empty.addLocal 0 "x" 4 15 }]

/-- The catalog has the global as a function and the module of that name as an empty table. -/
def crowdedCatalog : Catalog := ⟨[("x", .scalar .function), ("lib", .table [])]⟩

theorem openModule_exports_crowded :
    (openModule.facts crowdedCatalog).declaration = some ⟨2, some "app", .open⟩ ∧
      (openModule.facts crowdedCatalog).requires = [⟨1, "lib", some "x"⟩] ∧
      (openModule.facts crowdedCatalog).returned = some "x" ∧
      ⟨3, "x.deep.down", false⟩ ∈ (openModule.facts crowdedCatalog).references ∧
      Fields.get? "x" (openModule.audit crowdedCatalog ⟨false, true⟩
        ([] : List Source)).1.definitions = some .own ∧
      ∀ finding, ¬ StemsFrom crowdedCatalog ⟨false, true⟩ (openModule.facts crowdedCatalog)
        ([] : List Source) finding ⟨3, "x.deep.down", false⟩ := by
  have opened : (openModule.facts crowdedCatalog).declaration = some ⟨2, some "app", .open⟩ := by
    decide
  have written : ⟨4, "x", true⟩ ∈ (openModule.facts crowdedCatalog).references := by decide
  obtain ⟨bound, accepted, _⟩ := openModule_exports opened
    (.inr ⟨_, written, rfl, rfl, by decide⟩) ⟨false, true⟩ ([] : List Source)
  refine ⟨opened, by decide, by decide, by decide, bound, ?_⟩
  intro finding stems
  exact accepted finding _ stems (by decide)

end Listing

end GlobalAudit
