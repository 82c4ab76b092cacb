import GlobalAudit.Catalog.Standard
import GlobalAudit.Files.Documents

/-! Shapes in which no table has a field twice, at any depth. Every catalog is of this kind: the ones
of the interpreters, and what is read from documents of both formats. -/
namespace GlobalAudit

namespace Fields

variable {α : Type}

theorem mem_of_get?_eq_some {name : String} {value : α} {fields : Fields α}
    (found : get? name fields = some value) : (name, value) ∈ fields := by
  induction fields with
  | nil => cases found
  | cons entry rest ih =>
      rw [get?] at found
      split at found
      · rename_i same
        cases found
        exact same ▸ List.mem_cons_self
      · exact List.mem_cons_of_mem _ (ih found)

theorem get?_eq_some_of_mem {name : String} {value : α} {fields : Fields α}
    (distinct : Distinct fields) (member : (name, value) ∈ fields) : get? name fields = some value := by
  induction fields with
  | nil => cases member
  | cons entry rest ih =>
      obtain ⟨fresh, later⟩ := List.nodup_cons.mp distinct
      rcases List.mem_cons.mp member with rfl | inRest
      · simp [get?]
      · have other : entry.1 ≠ name := by
          rintro rfl
          exact fresh (List.mem_map.mpr ⟨_, inRest, rfl⟩)
        rw [get?, if_neg other, ih later inRest]

theorem mem_put {entry : String × α} {name : String} {value : α} {fields : Fields α}
    (member : entry ∈ put name value fields) : entry.2 = value ∨ entry ∈ fields := by
  induction fields with
  | nil =>
      rw [put, List.mem_singleton] at member
      exact .inl (member ▸ rfl)
  | cons first rest ih =>
      rw [put] at member
      split at member
      · rcases List.mem_cons.mp member with rfl | later
        · exact .inl rfl
        · exact .inr (List.mem_cons_of_mem _ later)
      · rcases List.mem_cons.mp member with rfl | later
        · exact .inr List.mem_cons_self
        · exact (ih later).imp_right (List.mem_cons_of_mem _)

theorem put_of_get?_eq_none {name : String} {fields : Fields α} (value : α)
    (absent : get? name fields = none) : put name value fields = fields ++ [(name, value)] := by
  induction fields with
  | nil => rfl
  | cons entry rest ih =>
      rw [get?] at absent
      split at absent
      · cases absent
      · rename_i differs
        rw [put, if_neg differs, ih absent]
        rfl

/-- Entries of different names stay as they are when they are put one after the other. -/
theorem ofList_of_distinct {entries : Fields α} (distinct : Distinct entries) :
    ofList entries = entries := by
  suffices run : ∀ front : Fields α, Distinct (front ++ entries) →
      entries.foldl (fun fields entry => put entry.1 entry.2 fields) front = front ++ entries from
    run [] distinct
  clear distinct
  induction entries with
  | nil => exact fun front _ => (List.append_nil front).symm
  | cons entry rest ih =>
      intro front distinct
      have absent : get? entry.1 front = none := by
        rw [get?_eq_none_iff]
        intro present
        rw [Distinct, names, List.map_append, List.nodup_append] at distinct
        exact distinct.2.2 _ present _ List.mem_cons_self rfl
      rw [List.append_cons] at distinct ⊢
      rw [List.foldl_cons, put_of_get?_eq_none _ absent]
      exact ih _ distinct

/-- Entries are determined by their names in order and by what is found under each name. -/
theorem ext {first second : Fields α} (distinct : Distinct first)
    (sameNames : names first = names second)
    (sameValues : ∀ name, get? name first = get? name second) : first = second := by
  induction first generalizing second with
  | nil =>
      have none : second = [] := List.map_eq_nil_iff.mp sameNames.symm
      exact none.symm
  | cons entry rest ih =>
      cases second with
      | nil => cases sameNames
      | cons other others =>
          obtain ⟨name, value⟩ := entry
          obtain ⟨key, found⟩ := other
          obtain ⟨sameName, sameRest⟩ : name = key ∧ names rest = names others :=
            List.cons.inj sameNames
          obtain ⟨absent, distinctRest⟩ := List.nodup_cons.mp distinct
          subst sameName
          have sameValue : value = found := by simpa [get?] using sameValues name
          have later : ∀ label, get? label rest = get? label others := by
            intro label
            by_cases same : name = label
            · subst same
              rw [(get?_eq_none_iff name rest).mpr absent,
                (get?_eq_none_iff name others).mpr (sameRest ▸ absent)]
            · simpa [get?, same] using sameValues label
          rw [sameValue, ih distinctRest sameRest later]

end Fields

namespace Shape

/-- No table has a field twice. -/
inductive WellFormed : Shape → Prop where
  | table {fields : Fields Shape} (distinct : Fields.Distinct fields)
      (inner : ∀ entry ∈ fields, WellFormed entry.2) : WellFormed (.table fields)
  | scalar (kind : Kind) : WellFormed (.scalar kind)
  | own : WellFormed .own

namespace WellFormed

variable {fields : Fields Shape}

theorem distinct (wellFormed : WellFormed (.table fields)) : Fields.Distinct fields := by
  cases wellFormed with
  | table distinct inner => exact distinct

theorem inner (wellFormed : WellFormed (.table fields)) : ∀ entry ∈ fields, entry.2.WellFormed := by
  cases wellFormed with
  | table distinct inner => exact inner

theorem nil : WellFormed (.table []) := by
  refine .table List.nodup_nil ?_
  intro entry member
  cases member

theorem get? (wellFormed : WellFormed (.table fields)) {name : String} {shape : Shape}
    (found : Fields.get? name fields = some shape) : shape.WellFormed :=
  wellFormed.inner _ (Fields.mem_of_get?_eq_some found)

theorem put (wellFormed : WellFormed (.table fields)) (name : String) {shape : Shape}
    (new : shape.WellFormed) : WellFormed (.table (Fields.put name shape fields)) := by
  refine .table (wellFormed.distinct.put name shape) ?_
  intro entry member
  rcases Fields.mem_put member with same | old
  · exact same ▸ new
  · exact wellFormed.inner entry old

theorem fieldsUnder (wellFormed : WellFormed (.table fields)) (name : String) :
    WellFormed (.table (Shape.fieldsUnder name fields)) := by
  rw [Shape.fieldsUnder]
  cases found : Fields.get? name fields with
  | none => exact .nil
  | some shape =>
      have below : shape.WellFormed := wellFormed.get? found
      cases shape with
      | table inside => exact below
      | scalar kind => exact .nil
      | own => exact .nil

theorem putAt {shape : Shape} (new : shape.WellFormed) (path : List String)
    (wellFormed : WellFormed (.table fields)) :
    WellFormed (.table (Shape.putAt shape path fields)) := by
  fun_induction Shape.putAt shape path fields with
  | case1 fields => exact wellFormed
  | case2 name fields => exact wellFormed.put name new
  | case3 name rest fields _ ih => exact wellFormed.put name (ih (wellFormed.fieldsUnder name))

/-- Entries put one after the other. -/
theorem ofList {entries : List (String × Shape)} (all : ∀ entry ∈ entries, entry.2.WellFormed) :
    WellFormed (.table (Fields.ofList entries)) := by
  suffices run : ∀ fields : Fields Shape, WellFormed (.table fields) → WellFormed
      (.table (entries.foldl (fun fields entry => Fields.put entry.1 entry.2 fields) fields)) from
    run [] .nil
  induction entries with
  | nil => exact fun fields wellFormed => wellFormed
  | cons entry rest ih =>
      obtain ⟨first, later⟩ := List.forall_mem_cons.mp all
      intro fields wellFormed
      exact ih later _ (wellFormed.put entry.1 first)

end WellFormed

theorem wellFormed_ofTypeName (name : String) : (ofTypeName name).WellFormed := by
  rw [ofTypeName]
  split
  · exact .nil
  · exact .scalar _

mutual

theorem wellFormed_ofJson : (value : Json) → (ofJson value).WellFormed
  | .null => .scalar _
  | .bool _ => .scalar _
  | .number _ => .scalar _
  | .string name => wellFormed_ofTypeName name
  | .array items => by
      rw [ofJson]
      apply WellFormed.ofList
      intro entry member
      obtain ⟨name, _, rfl⟩ := List.mem_map.mp member
      exact .scalar .any
  | .object members => by
      rw [ofJson]
      exact WellFormed.ofList (wellFormed_fieldsOf members)

theorem wellFormed_fieldsOf : (members : List (String × Json)) →
    ∀ entry ∈ fieldsOf members, entry.2.WellFormed
  | [] => by
      intro entry member
      cases member
  | (name, value) :: rest => by
      rw [fieldsOf]
      exact List.forall_mem_cons.mpr ⟨wellFormed_ofJson value, wellFormed_fieldsOf rest⟩

end

end Shape

namespace Catalog

def WellFormed (catalog : Catalog) : Prop := (Shape.table catalog.globals).WellFormed

theorem WellFormed.insertPath {catalog : Catalog} (wellFormed : catalog.WellFormed) (name : String)
    {shape : Shape} (new : shape.WellFormed) : (catalog.insertPath name shape).WellFormed :=
  Shape.WellFormed.putAt new (Dotted.segments name) wellFormed

theorem WellFormed.extend {catalog : Catalog} (wellFormed : catalog.WellFormed)
    {entries : List (String × Shape)} (all : ∀ entry ∈ entries, entry.2.WellFormed) :
    (catalog.extend entries).WellFormed := by
  induction entries generalizing catalog with
  | nil => exact wellFormed
  | cons entry rest ih =>
      obtain ⟨first, later⟩ := List.forall_mem_cons.mp all
      exact ih (wellFormed.insertPath entry.1 first) later

theorem wellFormed_empty : empty.WellFormed := .nil

theorem wellFormed_shared : ∀ entry ∈ shared, entry.2.WellFormed := by
  simp [shared, globalFunctions, functionsOf, or_imp, forall_and, Shape.WellFormed.scalar,
    Shape.WellFormed.nil]

theorem wellFormed_lua51 : lua51.WellFormed := by
  apply wellFormed_empty.extend
  rw [List.forall_mem_append]
  refine ⟨wellFormed_shared, ?_⟩
  simp [lua51Only, globalFunctions, functionsOf, Shape.WellFormed.scalar, Shape.WellFormed.nil]

theorem wellFormed_lua52 : lua52.WellFormed := by
  apply wellFormed_empty.extend
  rw [List.forall_mem_append]
  refine ⟨wellFormed_shared, ?_⟩
  simp [lua52Only, globalFunctions, functionsOf, Shape.WellFormed.scalar, Shape.WellFormed.nil]

/-! ## Documents -/

theorem wellFormed_ofDocument {read? : String → Option Json} {text : String} {catalog : Catalog}
    (read : ofDocument read? text = .ok catalog) : catalog.WellFormed := by
  rw [ofDocument] at read
  split at read
  · cases read
  · cases read
    exact Shape.WellFormed.ofList (Shape.wellFormed_fieldsOf _)
  · cases read

theorem WellFormed.addLine {catalog next : Catalog} (wellFormed : catalog.WellFormed)
    {line : List Char × Nat} (read : catalog.addLine line = .ok next) : next.WellFormed := by
  simp only [Catalog.addLine] at read
  split at read
  · cases read
    exact wellFormed
  · split at read
    · split at read
      · cases read
        exact wellFormed
      · cases read
        exact wellFormed.insertPath _ (.scalar .any)
    · cases read

theorem WellFormed.foldlM_addLine {catalog last : Catalog} (wellFormed : catalog.WellFormed)
    {lines : List (List Char × Nat)} (read : lines.foldlM Catalog.addLine catalog = .ok last) :
    last.WellFormed := by
  induction lines generalizing catalog with
  | nil =>
      cases read
      exact wellFormed
  | cons line rest ih =>
      rw [List.foldlM_cons] at read
      cases added : catalog.addLine line with
      | error reason =>
          rw [added] at read
          cases read
      | ok next =>
          rw [added] at read
          exact ih (wellFormed.addLine added) read

theorem wellFormed_ofNameList {text : String} {catalog : Catalog}
    (read : ofNameList text = .ok catalog) : catalog.WellFormed :=
  wellFormed_empty.foldlM_addLine read

end Catalog

/-- What a file gives is well formed, whatever its format. -/
theorem FileSystem.wellFormed_readCatalog {files : FileSystem} {path : String} {catalog : Catalog}
    (read : files.readCatalog path = .ok catalog) : catalog.WellFormed := by
  rw [readCatalog] at read
  split at read
  · cases read
  · split at read
    · rename_i text _ _
      cases parsed : Catalog.ofJsonText text with
      | error reason =>
          rw [parsed] at read
          cases read
      | ok found =>
          rw [parsed] at read
          cases read
          exact Catalog.wellFormed_ofDocument parsed
    · rename_i text _ _
      cases parsed : Catalog.ofNameList text with
      | error reason =>
          rw [parsed] at read
          cases read
      | ok found =>
          rw [parsed] at read
          cases read
          exact Catalog.wellFormed_ofNameList parsed

end GlobalAudit
