import GlobalAudit.Command.Run
import GlobalAudit.Proofs.Visibility
import GlobalAudit.Proofs.WellFormed
import Mathlib.Data.List.Induction

/-! Merging in stages. A merge is decided name by name, so three shapes merge to the same result from
either side as long as no path leads to a table in the outer two and to something else in the middle
one. For the files of a run this means that they may be merged before they meet the globals of the
interpreter. -/
namespace GlobalAudit

namespace Shape

/-! ## A merge by names -/

def isTable : Shape → Bool
  | .table _ => true
  | _ => false

theorem merge_table (mine theirs : Fields Shape) :
    merge (.table mine) (.table theirs) = .table (mergeFields mine theirs) := by
  rw [merge]

/-- A shape that is no table leaves nothing behind. -/
theorem merge_of_left {shape : Shape} (noTable : shape.isTable = false) (newer : Shape) :
    shape.merge newer = newer := by
  cases shape with
  | table fields => cases noTable
  | scalar kind => cases newer <;> rfl
  | own => cases newer <;> rfl

/-- A shape that is no table replaces what was there. -/
theorem merge_of_right (shape : Shape) {newer : Shape} (noTable : newer.isTable = false) :
    shape.merge newer = newer := by
  cases newer with
  | table fields => cases noTable
  | scalar kind => cases shape <;> rfl
  | own => cases shape <;> rfl

/-- One field goes to its place, merged with what is there. -/
theorem mergeFields_cons (mine : Fields Shape) (name : String) (value : Shape)
    (rest : Fields Shape) :
    mergeFields mine ((name, value) :: rest) =
      mergeFields (Fields.put name ((Fields.get? name mine).elim value (·.merge value)) mine)
        rest := by
  rw [mergeFields]
  cases found : Fields.get? name mine with
  | none => simp only [Option.elim_none, Fields.put_of_get?_eq_none value found]
  | some present => rfl

theorem get?_mergeFields (name : String) (mine : Fields Shape) {theirs : Fields Shape}
    (distinct : Fields.Distinct theirs) :
    Fields.get? name (mergeFields mine theirs) =
      Option.merge merge (Fields.get? name mine) (Fields.get? name theirs) := by
  induction theirs generalizing mine with
  | nil => simp [mergeFields, Fields.get?]
  | cons entry rest ih =>
      obtain ⟨key, value⟩ := entry
      obtain ⟨absent, distinctRest⟩ := List.nodup_cons.mp distinct
      rw [mergeFields_cons, ih _ distinctRest, Fields.get?_put, Fields.get?]
      by_cases same : name = key
      · subst same
        rw [if_pos rfl, if_pos rfl, (Fields.get?_eq_none_iff name rest).mpr absent]
        cases Fields.get? name mine <;> rfl
      · rw [if_neg same, if_neg (Ne.symm same)]

theorem names_mergeFields (mine : Fields Shape) {theirs : Fields Shape}
    (distinct : Fields.Distinct theirs) :
    Fields.names (mergeFields mine theirs) =
      Fields.names mine ++ (Fields.names theirs).filter fun name => name ∉ Fields.names mine := by
  induction theirs generalizing mine with
  | nil => simp [mergeFields, Fields.names]
  | cons entry rest ih =>
      obtain ⟨key, value⟩ := entry
      obtain ⟨absent, distinctRest⟩ := List.nodup_cons.mp distinct
      have head : Fields.names ((key, value) :: rest) = key :: Fields.names rest := rfl
      rw [mergeFields_cons, ih _ distinctRest, Fields.names_put, head, List.filter_cons]
      by_cases present : key ∈ Fields.names mine
      · simp [present]
      · -- The new name is not among the later ones, so they are told apart as before.
        have later : (Fields.names rest).filter (fun name => name ∉ Fields.names mine ++ [key]) =
            (Fields.names rest).filter fun name => name ∉ Fields.names mine := by
          apply List.filter_congr
          intro name member
          have differs : name ≠ key := fun same => absent (same ▸ member)
          simp [differs]
        rw [if_neg present, later]
        simp [present]

theorem distinct_mergeFields {mine theirs : Fields Shape} (distinct : Fields.Distinct mine)
    (newDistinct : Fields.Distinct theirs) : Fields.Distinct (mergeFields mine theirs) := by
  rw [Fields.Distinct, names_mergeFields mine newDistinct, List.nodup_append]
  refine ⟨distinct, List.Pairwise.filter _ newDistinct, ?_⟩
  intro old inMine new inNew same
  have outside := (List.mem_filter.mp inNew).2
  simp only [decide_eq_true_eq] at outside
  exact outside (same ▸ inMine)

theorem WellFormed.mergeFields {mine theirs : Fields Shape} (wellFormed : WellFormed (.table mine))
    (inner : ∀ entry ∈ theirs, entry.2.WellFormed)
    (merged : ∀ entry ∈ theirs, ∀ shape : Shape,
      shape.WellFormed → (shape.merge entry.2).WellFormed) :
    WellFormed (.table (mergeFields mine theirs)) := by
  induction theirs generalizing mine with
  | nil => exact wellFormed
  | cons entry rest ih =>
      obtain ⟨name, value⟩ := entry
      obtain ⟨first, later⟩ := List.forall_mem_cons.mp inner
      obtain ⟨firstMerged, laterMerged⟩ := List.forall_mem_cons.mp merged
      rw [mergeFields_cons]
      apply ih _ later laterMerged
      apply wellFormed.put name
      cases found : Fields.get? name mine with
      | none => exact first
      | some present => exact firstMerged present (wellFormed.get? found)

/-- Merging makes no field twice. -/
theorem WellFormed.merge {shape newer : Shape} (wellFormed : shape.WellFormed)
    (new : newer.WellFormed) : (shape.merge newer).WellFormed := by
  induction new generalizing shape with
  | scalar kind =>
      rw [merge_of_right shape rfl]
      exact .scalar kind
  | own =>
      rw [merge_of_right shape rfl]
      exact .own
  | table distinct inner ih =>
      cases shape with
      | scalar kind =>
          rw [merge_of_left rfl]
          exact .table distinct inner
      | own =>
          rw [merge_of_left rfl]
          exact .table distinct inner
      | table mine =>
          rw [merge_table]
          exact wellFormed.mergeFields inner fun entry member _ present => ih entry member present

/-! ## Three shapes -/

/-- A path leads to a table in the outer two of three shapes, and in the middle one to something
that is no table. -/
structure Clash (first middle last : Shape) (path : List String) : Prop where
  first : (first.follow? path).any isTable = true
  middle : (middle.follow? path).any (fun shape => !shape.isTable) = true
  last : (last.follow? path).any isTable = true

/-- No path leads to a clash. -/
def Compatible (first middle last : Shape) : Prop := ∀ path, ¬ Clash first middle last path

theorem Compatible.field {first middle last : Fields Shape}
    (compatible : Compatible (.table first) (.table middle) (.table last)) {name : String}
    {mine theirs newest : Shape} (inFirst : Fields.get? name first = some mine)
    (inMiddle : Fields.get? name middle = some theirs)
    (inLast : Fields.get? name last = some newest) : Compatible mine theirs newest := by
  intro path clash
  apply compatible (name :: path)
  constructor
  · simpa [follow?, field?, inFirst] using clash.first
  · simpa [follow?, field?, inMiddle] using clash.middle
  · simpa [follow?, field?, inLast] using clash.last

theorem names_mergeFields_assoc (first : Fields Shape) {middle last : Fields Shape}
    (middleDistinct : Fields.Distinct middle) (lastDistinct : Fields.Distinct last) :
    Fields.names (mergeFields (mergeFields first middle) last) =
      Fields.names (mergeFields first (mergeFields middle last)) := by
  rw [names_mergeFields _ lastDistinct, names_mergeFields _ middleDistinct,
    names_mergeFields _ (distinct_mergeFields middleDistinct lastDistinct),
    names_mergeFields _ lastDistinct, List.filter_append, List.filter_filter, List.append_assoc]
  congr 2
  apply List.filter_congr
  intro name _
  by_cases inFirst : name ∈ Fields.names first <;> by_cases inMiddle : name ∈ Fields.names middle <;>
    simp [inFirst, inMiddle]

/-- Where the middle shape is no table, one of the outer two is none either. -/
theorem merge_assoc_of_not_table {first middle last : Shape} (noTable : middle.isTable = false)
    (compatible : Compatible first middle last) :
    (first.merge middle).merge last = first.merge (middle.merge last) := by
  rw [merge_of_right first noTable, merge_of_left noTable]
  cases inFirst : first.isTable with
  | false => rw [merge_of_left inFirst]
  | true =>
      cases inLast : last.isTable with
      | false => rw [merge_of_right first inLast]
      | true =>
          have clash : Clash first middle last [] := by
            constructor <;> simp [follow?, inFirst, noTable, inLast]
          exact absurd clash (compatible [])

/-- Three shapes without a clash merge to the same from either side. -/
theorem merge_assoc {first middle last : Shape} (firstWell : first.WellFormed)
    (middleWell : middle.WellFormed) (lastWell : last.WellFormed)
    (compatible : Compatible first middle last) :
    (first.merge middle).merge last = first.merge (middle.merge last) := by
  induction middleWell generalizing first last with
  | scalar kind => exact merge_assoc_of_not_table rfl compatible
  | own => exact merge_assoc_of_not_table rfl compatible
  | @table middle middleDistinct middleInner ih =>
      cases firstWell with
      | scalar kind => simp only [merge_of_left (rfl : (scalar kind).isTable = false)]
      | own => simp only [merge_of_left (rfl : own.isTable = false)]
      | @table first firstDistinct firstInner =>
          cases lastWell with
          | scalar kind => rw [merge_of_right _ rfl, merge_of_right _ rfl, merge_of_right _ rfl]
          | own => rw [merge_of_right _ rfl, merge_of_right _ rfl, merge_of_right _ rfl]
          | @table last lastDistinct lastInner =>
              simp only [merge_table, Shape.table.injEq]
              have inner := distinct_mergeFields middleDistinct lastDistinct
              apply Fields.ext
              · exact distinct_mergeFields (distinct_mergeFields firstDistinct middleDistinct)
                  lastDistinct
              · exact names_mergeFields_assoc first middleDistinct lastDistinct
              · intro name
                rw [get?_mergeFields _ _ lastDistinct, get?_mergeFields _ _ middleDistinct,
                  get?_mergeFields _ _ inner, get?_mergeFields _ _ lastDistinct]
                cases inFirst : Fields.get? name first with
                | none => simp
                | some mine =>
                    cases inMiddle : Fields.get? name middle with
                    | none => simp
                    | some theirs =>
                        cases inLast : Fields.get? name last with
                        | none => simp
                        | some newest =>
                            have same := ih _ (Fields.mem_of_get?_eq_some inMiddle)
                              (firstInner _ (Fields.mem_of_get?_eq_some inFirst))
                              (lastInner _ (Fields.mem_of_get?_eq_some inLast))
                              (compatible.field inFirst inMiddle inLast)
                            simpa using same

/-- A path that leads to no table after a merge led to it in one of the two shapes. -/
theorem follow?_merge {shape newer result : Shape} (wellFormed : newer.WellFormed)
    {path : List String} (noTable : result.isTable = false)
    (found : (shape.merge newer).follow? path = some result) :
    shape.follow? path = some result ∨ newer.follow? path = some result := by
  induction wellFormed generalizing shape path with
  | scalar kind =>
      rw [merge_of_right shape rfl] at found
      exact .inr found
  | own =>
      rw [merge_of_right shape rfl] at found
      exact .inr found
  | @table theirs distinct inner ih =>
      cases shape with
      | scalar kind =>
          rw [merge_of_left rfl] at found
          exact .inr found
      | own =>
          rw [merge_of_left rfl] at found
          exact .inr found
      | table mine =>
          rw [merge_table] at found
          cases path with
          | nil =>
              cases found
              cases noTable
          | cons name rest =>
              simp only [follow?, field?, get?_mergeFields name mine distinct] at found ⊢
              cases left : Fields.get? name mine with
              | none =>
                  rw [left, Option.merge_none_left] at found
                  exact .inr found
              | some old =>
                  cases right : Fields.get? name theirs with
                  | none =>
                      rw [left, right, Option.merge_none_right] at found
                      exact .inl found
                  | some new =>
                      rw [left, right] at found
                      exact ih _ (Fields.mem_of_get?_eq_some right) found

end Shape

namespace Catalog

/-! ## Many catalogs -/

def Compatible (first middle last : Catalog) : Prop :=
  Shape.Compatible (.table first.globals) (.table middle.globals) (.table last.globals)

theorem WellFormed.merge {catalog newer : Catalog} (wellFormed : catalog.WellFormed)
    (new : newer.WellFormed) : (catalog.merge newer).WellFormed := by
  have merged := Shape.WellFormed.merge wellFormed new
  rw [Shape.merge_table] at merged
  exact merged

theorem merge_assoc {first middle last : Catalog} (firstWell : first.WellFormed)
    (middleWell : middle.WellFormed) (lastWell : last.WellFormed)
    (compatible : Compatible first middle last) :
    (first.merge middle).merge last = first.merge (middle.merge last) := by
  have same := Shape.merge_assoc firstWell middleWell lastWell compatible
  simp only [Shape.merge_table, Shape.table.injEq] at same
  exact congrArg Catalog.mk same

theorem WellFormed.foldl_merge {catalog : Catalog} (wellFormed : catalog.WellFormed)
    {added : List Catalog} (all : ∀ newer ∈ added, newer.WellFormed) :
    (added.foldl Catalog.merge catalog).WellFormed := by
  induction added generalizing catalog with
  | nil => exact wellFormed
  | cons newer rest ih =>
      obtain ⟨first, later⟩ := List.forall_mem_cons.mp all
      exact ih (wellFormed.merge first) later

/-- What is no table in merged catalogs is no table in one of them. -/
theorem exists_follow?_foldl_merge {added : List Catalog}
    (all : ∀ newer ∈ added, newer.WellFormed) {path : List String} {result : Shape}
    (noTable : result.isTable = false)
    (found : (Shape.table (added.foldl merge empty).globals).follow? path = some result) :
    ∃ catalog ∈ added, (Shape.table catalog.globals).follow? path = some result := by
  induction added using List.reverseRecOn with
  | nil =>
      cases path with
      | nil =>
          cases found
          cases noTable
      | cons name rest => cases found
  | append_singleton added last ih =>
      obtain ⟨early, lastWell⟩ := List.forall_mem_append.mp all
      rw [List.foldl_append, List.foldl_cons, List.foldl_nil, merge, ← Shape.merge_table] at found
      rcases Shape.follow?_merge (lastWell last List.mem_cons_self) noTable found with before | here
      · obtain ⟨catalog, member, inside⟩ := ih early before
        exact ⟨catalog, List.mem_append_left _ member, inside⟩
      · exact ⟨last, List.mem_append_right _ List.mem_cons_self, here⟩

/-- No three of these catalogs clash, taken in their order. -/
def Harmonious (catalogs : List Catalog) : Prop :=
  ∀ first middle last, [first, middle, last].Sublist catalogs → Compatible first middle last

/-- Catalogs that are merged first and then into a base give what they give one by one. -/
theorem merge_foldl_merge {base : Catalog} (baseWell : base.WellFormed) {added : List Catalog}
    (all : ∀ newer ∈ added, newer.WellFormed) (harmonious : Harmonious (base :: added)) :
    base.merge (added.foldl merge empty) = added.foldl merge base := by
  induction added using List.reverseRecOn with
  | nil => rfl
  | append_singleton added last ih =>
      obtain ⟨early, lastWell⟩ := List.forall_mem_append.mp all
      have before : Harmonious (base :: added) := by
        intro first middle newest order
        exact harmonious first middle newest
          (order.trans ((List.sublist_append_left added [last]).cons_cons base))
      have compatible : Compatible base (added.foldl merge empty) last := by
        intro path clash
        obtain ⟨result, found, noTable⟩ := (Option.any_eq_true _ _).mp clash.middle
        rw [Bool.not_eq_true'] at noTable
        -- The middle of the clash is in one of the files merged so far.
        obtain ⟨middle, member, inside⟩ := exists_follow?_foldl_merge early noTable found
        have order : [base, middle, last].Sublist (base :: (added ++ [last])) :=
          ((List.singleton_sublist.mpr member).append (List.Sublist.refl [last])).cons_cons base
        refine harmonious base middle last order path ⟨clash.first, ?_, clash.last⟩
        rw [inside]
        simp [noTable]
      simp only [List.foldl_append, List.foldl_cons, List.foldl_nil]
      rw [← merge_assoc baseWell (wellFormed_empty.foldl_merge early)
        (lastWell last List.mem_cons_self) compatible, ih early before]

end Catalog

theorem FileSystem.foldlM_readCatalog (files : FileSystem) (paths : List String) (start : Catalog) :
    paths.foldlM (fun merged path => (files.readCatalog path).map merged.merge) start =
      (paths.mapM files.readCatalog).map fun loaded => loaded.foldl Catalog.merge start := by
  induction paths generalizing start with
  | nil => rfl
  | cons path rest ih =>
      rw [List.foldlM_cons, List.mapM_cons]
      cases files.readCatalog path with
      | error reason => rfl
      | ok catalog =>
          have next := ih (start.merge catalog)
          cases loaded : rest.mapM files.readCatalog with
          | error reason =>
              rw [loaded] at next
              exact next
          | ok others =>
              rw [loaded] at next
              exact next

theorem FileSystem.wellFormed_mapM_readCatalog {files : FileSystem} {paths : List String}
    {loaded : List Catalog} (read : paths.mapM files.readCatalog = .ok loaded) :
    ∀ catalog ∈ loaded, catalog.WellFormed := by
  induction paths generalizing loaded with
  | nil =>
      cases read
      intro catalog member
      cases member
  | cons path rest ih =>
      rw [List.mapM_cons] at read
      cases first : files.readCatalog path with
      | error reason =>
          rw [first] at read
          cases read
      | ok catalog =>
          cases others : rest.mapM files.readCatalog with
          | error reason =>
              rw [first, others] at read
              cases read
          | ok later =>
              rw [first, others] at read
              cases read
              exact List.forall_mem_cons.mpr ⟨wellFormed_readCatalog first, ih others⟩

namespace Run

theorem wellFormed_standardCatalog (standard : Bool) (dialect : Dialect) :
    (standardCatalog standard dialect).WellFormed := by
  cases standard with
  | false => exact Catalog.wellFormed_empty
  | true =>
      cases dialect with
      | lua51 => exact Catalog.wellFormed_lua51
      | lua52 => exact Catalog.wellFormed_lua52

/-- The allowed globals of a run, when each file is merged into them as it is read. -/
def catalogOneByOne (surroundings : Surroundings) (settings : Settings) (dialect : Dialect) :
    Except DocumentFileError Catalog :=
  settings.whitelists.foldlM
    (fun merged path => (surroundings.files.readCatalog path).map merged.merge)
    (standardCatalog settings.standard dialect)

/-- Merging in stages is merging one by one: for three shapes without a clash, with the order of
fields at every level, and so for the files of a run, when no three of them and of the globals of
the interpreter clash in their order. -/
theorem staged_merge_eq_one_by_one :
    (∀ first middle last : Shape, first.WellFormed → middle.WellFormed → last.WellFormed →
      Shape.Compatible first middle last →
      (first.merge middle).merge last = first.merge (middle.merge last)) ∧
    ∀ (surroundings : Surroundings) (settings : Settings) (dialect : Dialect),
      (∀ loaded, settings.whitelists.mapM surroundings.files.readCatalog = .ok loaded →
        Catalog.Harmonious (standardCatalog settings.standard dialect :: loaded)) →
      catalog surroundings settings dialect = catalogOneByOne surroundings settings dialect := by
  refine ⟨?_, ?_⟩
  · intro first middle last firstWell middleWell lastWell compatible
    exact Shape.merge_assoc firstWell middleWell lastWell compatible
  · intro surroundings settings dialect harmonious
    rw [catalog, FileSystem.readCatalogs, catalogOneByOne, FileSystem.foldlM_readCatalog,
      FileSystem.foldlM_readCatalog]
    cases read : settings.whitelists.mapM surroundings.files.readCatalog with
    | error reason => rfl
    | ok loaded =>
        have same := Catalog.merge_foldl_merge
          (wellFormed_standardCatalog settings.standard dialect)
          (FileSystem.wellFormed_mapM_readCatalog read) (harmonious loaded read)
        exact congrArg Except.ok same

/-- Two lists of names: both add to one new table, and the second puts a plain value in the place of
a library that the first extends. -/
def twoLists : Surroundings where
  files :=
    let bytes := fun text : String => text.toList.map fun c => c.toNat.toUInt8
    ⟨.directory [("first", .file (bytes "app.log\nstring.trim\n")),
      ("second", .file (bytes "app.net\nstring\n"))], []⟩
  environment := fun _ => none
  tools := ⟨fun _ => .error "", fun _ _ => .error "", fun _ _ => .error ""⟩

def twoListsSettings : Settings where
  mode := .check
  policy := ⟨false, false⟩
  whitelists := ["first", "second"]
  modules := []
  standard := false
  interpreted := false
  json := false
  dialect := some .lua51
  compiler := "luac"
  interpreter := "lua"
  log := .warn
  paths := []

def firstList : Catalog :=
  ⟨[("app", .table [("log", .scalar .any)]), ("string", .table [("trim", .scalar .any)])]⟩

def secondList : Catalog := ⟨[("app", .table [("net", .scalar .any)]), ("string", .scalar .any)]⟩

/-- The first list does not clash where its plain values are new. -/
theorem harmonious_twoLists {base : Catalog}
    (noApp : (Shape.table base.globals).field? "app" = none)
    (noTrim : ((Shape.table base.globals).field? "string").bind (Shape.field? "trim") = none) :
    Catalog.Harmonious [base, firstList, secondList] := by
  rintro first middle last order path ⟨inFirst, inMiddle, _⟩
  cases order.eq_of_length rfl
  cases path with
  | nil => cases inMiddle
  | cons name rest =>
      by_cases app : name = "app"
      · subst app
        simp [Shape.follow?, noApp] at inFirst
      · by_cases library : name = "string"
        · subst library
          cases rest with
          | nil => cases inMiddle
          | cons field deeper =>
              by_cases trim : field = "trim"
              · subst trim
                simp [Shape.follow?, ← Option.bind_assoc, noTrim] at inFirst
              · simp [Shape.follow?, Shape.field?, Fields.get?, firstList, Ne.symm trim] at inMiddle
        · simp [Shape.follow?, Shape.field?, Fields.get?, firstList, Ne.symm app,
            Ne.symm library] at inMiddle

/-- A catalog with a part of the string library. -/
def strings : Catalog := ⟨[("string", .table [("sub", .scalar .function)])]⟩

theorem staged_merge_of_twoLists :
    Catalog.Harmonious [strings, firstList, secondList] ∧
      (Shape.merge (.table strings.globals) (.table firstList.globals)).merge
          (.table secondList.globals) =
        Shape.merge (.table strings.globals)
          (Shape.merge (.table firstList.globals) (.table secondList.globals)) ∧
      Catalog.Harmonious [.empty, firstList, secondList] ∧
      catalog twoLists twoListsSettings .lua51 = catalogOneByOne twoLists twoListsSettings .lua51 := by
  have firstRead : twoLists.files.readCatalog "first" = .ok firstList := rfl
  have secondRead : twoLists.files.readCatalog "second" = .ok secondList := rfl
  have overStrings : Catalog.Harmonious [strings, firstList, secondList] :=
    harmonious_twoLists rfl rfl
  have overNothing : Catalog.Harmonious [.empty, firstList, secondList] :=
    harmonious_twoLists rfl rfl
  have stringsWell : strings.WellFormed :=
    Catalog.wellFormed_empty.insertPath "string.sub" (.scalar .function)
  obtain ⟨shapes, runs⟩ := staged_merge_eq_one_by_one
  refine ⟨overStrings, ?_, overNothing, ?_⟩
  · exact shapes _ _ _ stringsWell (FileSystem.wellFormed_readCatalog firstRead)
      (FileSystem.wellFormed_readCatalog secondRead)
      (overStrings _ _ _ (List.Sublist.refl [strings, firstList, secondList]))
  · apply runs twoLists twoListsSettings .lua51
    intro loaded read
    rw [twoListsSettings, List.mapM_cons, List.mapM_cons, List.mapM_nil, firstRead, secondRead]
      at read
    cases read
    exact overNothing

end Run

end GlobalAudit
