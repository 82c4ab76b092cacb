import GlobalAudit.Proofs.Merge
import GlobalAudit.Proofs.Resolution

/-! What a path leads to after a merge. This is decided by what it leads to in the two shapes, and by
whether the newer one has something that is no table on the way: whatever was behind that is gone. -/
namespace GlobalAudit.Shape

theorem WellFormed.follow? {shape reached : Shape} (wellFormed : shape.WellFormed)
    {path : List String} (found : shape.follow? path = some reached) : reached.WellFormed := by
  induction path generalizing shape with
  | nil =>
      cases found
      exact wellFormed
  | cons name rest ih =>
      obtain ⟨fields, rfl⟩ := exists_table_of_follow? found
      obtain ⟨next, here, later⟩ := Option.bind_eq_some_iff.mp found
      exact ih (wellFormed.get? here) later

/-! ## Obstructed paths -/

/-- A path goes on behind something that is no table. -/
def Obstructs (shape : Shape) (path : List String) : Prop :=
  ∃ front next rest reached, path = front ++ next :: rest ∧ shape.follow? front = some reached ∧
    reached.isTable = false

theorem not_obstructs_nil (shape : Shape) : ¬ shape.Obstructs [] := by
  rintro ⟨front, next, rest, reached, split, _⟩
  exact List.cons_ne_nil _ _ (List.append_eq_nil_iff.mp split.symm).2

theorem obstructs_of_not_table {shape : Shape} (noTable : shape.isTable = false) (name : String)
    (rest : List String) : shape.Obstructs (name :: rest) :=
  ⟨[], name, rest, shape, rfl, rfl, noTable⟩

/-- Below a table a path is obstructed where the field obstructs the rest. -/
theorem obstructs_table_cons_iff (fields : Fields Shape) (name : String) (rest : List String) :
    (table fields).Obstructs (name :: rest) ↔
      ∃ inner, Fields.get? name fields = some inner ∧ inner.Obstructs rest := by
  constructor
  · rintro ⟨front, next, behind, reached, split, found, noTable⟩
    cases front with
    | nil =>
        cases found
        cases noTable
    | cons first front =>
        obtain ⟨rfl, below⟩ := List.cons.inj split
        obtain ⟨inner, here, later⟩ := Option.bind_eq_some_iff.mp found
        exact ⟨inner, here, front, next, behind, reached, below, later, noTable⟩
  · rintro ⟨inner, here, front, next, behind, reached, rfl, found, noTable⟩
    refine ⟨name :: front, next, behind, reached, rfl, ?_, noTable⟩
    rw [Shape.follow?, field?, here, Option.bind_some, found]

theorem Obstructs.follow?_eq_none {shape : Shape} {path : List String}
    (obstructed : shape.Obstructs path) : shape.follow? path = none := by
  obtain ⟨front, next, rest, reached, rfl, found, noTable⟩ := obstructed
  rw [follow?_append, found, Option.bind_some]
  cases reached with
  | table fields => cases noTable
  | scalar kind => rfl
  | own => rfl

/-! ## One path -/

section Paths

variable {shape newer : Shape} {path : List String}

theorem field?_merge_table (name : String) (mine : Fields Shape) {theirs : Fields Shape}
    (distinct : Fields.Distinct theirs) :
    (merge (.table mine) (.table theirs)).field? name =
      Option.merge merge (Fields.get? name mine) (Fields.get? name theirs) := by
  rw [merge_table]
  exact get?_mergeFields name mine distinct

/-- Where the newer shape has something, it is merged with what was there. -/
theorem follow?_merge_of_found {new : Shape} (wellFormed : newer.WellFormed)
    (found : newer.follow? path = some new) :
    (shape.merge newer).follow? path =
      some ((shape.follow? path).elim new fun old => old.merge new) := by
  induction path generalizing shape newer with
  | nil =>
      cases found
      rfl
  | cons name rest ih =>
      obtain ⟨theirs, rfl⟩ := exists_table_of_follow? found
      obtain ⟨next, here, later⟩ := Option.bind_eq_some_iff.mp found
      have inTheirs : Fields.get? name theirs = some next := here
      cases shape with
      | scalar kind =>
          rw [merge_of_left rfl, found]
          rfl
      | own =>
          rw [merge_of_left rfl, found]
          rfl
      | table mine =>
          rw [Shape.follow?, field?_merge_table name mine wellFormed.distinct, inTheirs,
            Shape.follow?, field?]
          cases Fields.get? name mine with
          | none => exact later
          | some old => exact ih (wellFormed.get? inTheirs) later

/-- Behind something that is no table in the newer shape nothing is left. -/
theorem follow?_merge_of_obstructs (wellFormed : newer.WellFormed)
    (obstructed : newer.Obstructs path) : (shape.merge newer).follow? path = none := by
  induction path generalizing shape newer with
  | nil => exact absurd obstructed (not_obstructs_nil newer)
  | cons name rest ih =>
      have lost := obstructed.follow?_eq_none
      cases newer with
      | scalar kind => rwa [merge_of_right shape rfl]
      | own => rwa [merge_of_right shape rfl]
      | table theirs =>
          obtain ⟨next, inTheirs, below⟩ := (obstructs_table_cons_iff theirs name rest).mp obstructed
          cases shape with
          | scalar kind => rwa [merge_of_left rfl]
          | own => rwa [merge_of_left rfl]
          | table mine =>
              rw [Shape.follow?, field?_merge_table name mine wellFormed.distinct, inTheirs]
              cases Fields.get? name mine with
              | none => exact below.follow?_eq_none
              | some old => exact ih (wellFormed.get? inTheirs) below

/-- What the newer shape says nothing about stays as it was. -/
theorem follow?_merge_of_free (wellFormed : newer.WellFormed) (lost : newer.follow? path = none)
    (free : ¬ newer.Obstructs path) : (shape.merge newer).follow? path = shape.follow? path := by
  induction path generalizing shape newer with
  | nil => cases lost
  | cons name rest ih =>
      cases newer with
      | scalar kind => exact absurd (obstructs_of_not_table rfl name rest) free
      | own => exact absurd (obstructs_of_not_table rfl name rest) free
      | table theirs =>
          cases shape with
          | scalar kind =>
              rw [merge_of_left rfl, lost]
              rfl
          | own =>
              rw [merge_of_left rfl, lost]
              rfl
          | table mine =>
              rw [Shape.follow?, field?_merge_table name mine wellFormed.distinct, Shape.follow?,
                field?]
              cases inTheirs : Fields.get? name theirs with
              | none => rw [Option.merge_none_right]
              | some next =>
                  have below : next.follow? rest = none := by
                    rwa [Shape.follow?, field?, inTheirs, Option.bind_some] at lost
                  have open' : ¬ next.Obstructs rest := fun obstructed =>
                    free ((obstructs_table_cons_iff theirs name rest).mpr
                      ⟨next, inTheirs, obstructed⟩)
                  cases Fields.get? name mine with
                  | none => exact below
                  | some old => exact ih (wellFormed.get? inTheirs) below open'

/-- The fields of a merged table: the old ones come first and the new ones follow, both in their
order. -/
theorem names_of_merge_eq_table {old new : Shape} (wellFormed : new.WellFormed)
    {fields : Fields Shape} (merged : old.merge new = .table fields) :
    Fields.names fields = Fields.names old.fields ++
      (Fields.names new.fields).filter fun name => name ∉ Fields.names old.fields := by
  cases new with
  | scalar kind =>
      rw [merge_of_right old rfl] at merged
      cases merged
  | own =>
      rw [merge_of_right old rfl] at merged
      cases merged
  | table theirs =>
      cases old with
      | scalar kind =>
          rw [merge_of_left rfl] at merged
          cases merged
          simp [Shape.fields, Fields.names]
      | own =>
          rw [merge_of_left rfl] at merged
          cases merged
          simp [Shape.fields, Fields.names]
      | table mine =>
          rw [merge_table] at merged
          cases merged
          exact names_mergeFields mine wellFormed.distinct

/-- The fields at a level of the result. -/
theorem names_of_follow?_merge (wellFormed : newer.WellFormed) {fields : Fields Shape}
    (reached : (shape.merge newer).follow? path = some (.table fields)) :
    Fields.names fields = Fields.names (shape.fieldsAt path) ++
      (Fields.names (newer.fieldsAt path)).filter fun name =>
        name ∉ Fields.names (shape.fieldsAt path) := by
  cases found : newer.follow? path with
  | none =>
      -- The level is there, so nothing in the newer shape is in the way to it.
      have free : ¬ newer.Obstructs path := by
        intro obstructed
        rw [follow?_merge_of_obstructs wellFormed obstructed] at reached
        cases reached
      rw [follow?_merge_of_free wellFormed found free] at reached
      simp [fieldsAt, reached, found, Shape.fields, Fields.names]
  | some new =>
      rw [follow?_merge_of_found wellFormed found, Option.some.injEq] at reached
      rw [fieldsAt, fieldsAt, found]
      cases before : shape.follow? path with
      | none =>
          rw [before, Option.elim_none] at reached
          simp [reached, Shape.fields, Fields.names]
      | some old =>
          rw [before, Option.elim_some] at reached
          exact names_of_merge_eq_table (wellFormed.follow? found) reached

end Paths

/-- Merging a shape with itself changes nothing. -/
theorem merge_self {shape : Shape} (wellFormed : shape.WellFormed) : shape.merge shape = shape := by
  induction wellFormed with
  | scalar kind => exact merge_of_right _ rfl
  | own => exact merge_of_right _ rfl
  | @table fields distinct inner ih =>
      rw [merge_table, Shape.table.injEq]
      apply Fields.ext (distinct_mergeFields distinct distinct)
      · have known : (Fields.names fields).filter (fun name => name ∉ Fields.names fields) = [] := by
          rw [List.filter_eq_nil_iff]
          simp
        rw [names_mergeFields fields distinct, known, List.append_nil]
      · intro name
        rw [get?_mergeFields name fields distinct]
        cases found : Fields.get? name fields with
        | none => rfl
        | some present =>
            rw [Option.merge_some_some, ih _ (Fields.mem_of_get?_eq_some found)]

/-- Merging tables, path by path. What the newer table has at a path is there afterwards, merged with
the table that was there before if both are tables. Where it has nothing, the older table keeps what
it has, unless the newer one has something on the way that is no table. Each level has the older
fields first and then the new ones, and merging a table with itself changes nothing. -/
theorem merge_path_by_path {mine theirs : Fields Shape} (mineWell : (table mine).WellFormed)
    (theirsWell : (table theirs).WellFormed) (path : List String) :
    let older := table mine
    let newer := table theirs
    let merged := older.merge newer
    (∀ new, newer.follow? path = some new → new.isTable = false →
        merged.follow? path = some new) ∧
      (∀ new, newer.follow? path = some (.table new) →
        (∀ old, older.follow? path = some (.table old) →
          merged.follow? path = some (.table (mergeFields old new))) ∧
        ((∀ old, older.follow? path ≠ some (.table old)) →
          merged.follow? path = some (.table new))) ∧
      (newer.follow? path = none →
        (newer.Obstructs path → merged.follow? path = none) ∧
        (¬ newer.Obstructs path → merged.follow? path = older.follow? path)) ∧
      (∀ fields, merged.follow? path = some (.table fields) →
        Fields.names fields = Fields.names (older.fieldsAt path) ++
          (Fields.names (newer.fieldsAt path)).filter fun name =>
            name ∉ Fields.names (older.fieldsAt path)) ∧
      older.merge older = older := by
  intro older newer merged
  refine ⟨?_, ?_, ?_, ?_, merge_self mineWell⟩
  · intro new found noTable
    rw [follow?_merge_of_found theirsWell found]
    cases older.follow? path with
    | none => rfl
    | some old => exact congrArg some (merge_of_right old noTable)
  · intro new found
    have reached : merged.follow? path = _ := follow?_merge_of_found theirsWell found
    refine ⟨?_, ?_⟩
    · intro old before
      rw [reached, before, Option.elim_some, merge_table]
    · intro without
      rw [reached]
      cases before : older.follow? path with
      | none => rfl
      | some old =>
          have noTable : old.isTable = false := by
            cases old with
            | table fields => exact absurd before (without fields)
            | scalar kind => rfl
            | own => rfl
          exact congrArg some (merge_of_left noTable _)
  · intro lost
    exact ⟨follow?_merge_of_obstructs theirsWell, follow?_merge_of_free theirsWell lost⟩
  · intro fields reached
    exact names_of_follow?_merge theirsWell reached

/-- A library that the newer table extends, one that it replaces, and a plain value that becomes a
table. -/
def olderTable : Fields Shape :=
  (Catalog.empty.extend [("io.write", .scalar .function), ("os.time", .scalar .function),
    ("app", .scalar .any)]).globals

def newerTable : Fields Shape :=
  (Catalog.empty.extend [("print", .scalar .function), ("io.read", .scalar .function),
    ("os", .scalar .any), ("app.run", .scalar .function)]).globals

theorem merge_olderTable_newerTable :
    (table newerTable).Obstructs ["os", "time"] ∧
      let merged := (table olderTable).merge (table newerTable)
      merged.follow? ["os"] = some (.scalar .any) ∧
      merged.follow? ["os", "time"] = none ∧
      merged.follow? ["io", "write"] = some (.scalar .function) ∧
      merged.follow? ["io"] =
        some (.table (mergeFields [("write", .scalar .function)] [("read", .scalar .function)])) ∧
      merged.follow? ["app"] = some (.table [("run", .scalar .function)]) ∧
      (∀ fields, merged.follow? [] = some (.table fields) →
        Fields.names fields = ["io", "os", "app", "print"]) ∧
      (table olderTable).merge (table olderTable) = table olderTable := by
  have olderWell : (table olderTable).WellFormed :=
    Catalog.wellFormed_empty.extend (by simp [WellFormed.scalar])
  have newerWell : (table newerTable).WellFormed :=
    Catalog.wellFormed_empty.extend (by simp [WellFormed.scalar])
  have laws (path : List String) := merge_path_by_path olderWell newerWell path
  have obstructed : (table newerTable).Obstructs ["os", "time"] :=
    ⟨["os"], "time", [], .scalar .any, rfl, rfl, rfl⟩
  have free : ¬ (table newerTable).Obstructs ["io", "write"] := by
    intro there
    obtain ⟨inner, found, below⟩ := (obstructs_table_cons_iff newerTable _ _).mp there
    cases found
    obtain ⟨deeper, missing, _⟩ := (obstructs_table_cons_iff _ _ _).mp below
    cases missing
  obtain ⟨plain, _⟩ := laws ["os"]
  obtain ⟨_, _, behind, _⟩ := laws ["os", "time"]
  obtain ⟨_, _, beside, _⟩ := laws ["io", "write"]
  obtain ⟨_, both, _⟩ := laws ["io"]
  obtain ⟨_, replaced, _⟩ := laws ["app"]
  obtain ⟨_, _, _, order, itself⟩ := laws []
  refine ⟨obstructed, plain _ rfl rfl, (behind rfl).1 obstructed, (beside rfl).2 free,
    (both _ rfl).1 _ rfl, (replaced _ rfl).2 ?_, order, itself⟩
  rintro old ⟨⟩

end GlobalAudit.Shape
