import GlobalAudit.Proofs.PathUpdate
import GlobalAudit.Proofs.Resolution
import GlobalAudit.Proofs.SharedSources

/-! Submodules that are required one after the other. Each is put below the global of its first
segment, into what is visible there at that time; so all of them are found in the end, together with
what the catalog has beside them. -/
namespace GlobalAudit

/-- Neither name is at or below the other. -/
def Dotted.Apart (first second : String) : Prop :=
  ¬ segments first <+: segments second ∧ ¬ segments second <+: segments first

instance (first second : String) : Decidable (Dotted.Apart first second) :=
  inferInstanceAs (Decidable (_ ∧ _))

theorem Dotted.Apart.symm {first second : String} (apart : Apart first second) :
    Apart second first := ⟨apart.2, apart.1⟩

/-! ## Answers of sources -/

namespace Source

theorem load_after (name other : String) (source : Source) :
    ((source.load other).2.load name).1 = (source.load name).1 := by
  cases source with
  | declared modules =>
      have unchanged : ((declared modules).load other).2 = declared modules := by
        rw [load]
        split <;> rfl
      rw [unchanged]
  | interpreter program =>
      obtain ⟨⟨probe, runs⟩, answers⟩ := program
      cases known : Fields.get? other answers with
      | some answer => simp only [load, Remembering.load, known]
      | none =>
          simp only [load, Remembering.load, known, Fields.get?_append, Fields.get?]
          cases Fields.get? name answers with
          | some answer => rfl
          | none =>
              by_cases same : other = name
              · rw [if_pos same, same]
                rfl
              · rw [if_neg same]
                rfl

/-- The answer of the first source counts unless it does not find the module. -/
theorem loadFirst_cons (name : String) (source : Source) (rest : List Source) :
    loadFirst name (source :: rest) =
      match (source.load name).1 with
      | .error (.notFound _) =>
        ((loadFirst name rest).1, (source.load name).2 :: (loadFirst name rest).2)
      | answer => (answer, (source.load name).2 :: rest) := by
  rw [loadFirst]
  obtain ⟨answer, kept⟩ := source.load name
  cases answer with
  | ok loaded => rfl
  | error reason => cases reason <;> rfl

/-- What sources answer about a module does not depend on what they were asked before. -/
theorem loadFirst_after (name other : String) (sources : List Source) :
    (loadFirst name (loadFirst other sources).2).1 = (loadFirst name sources).1 := by
  induction sources with
  | nil => rfl
  | cons source rest ih =>
      rw [loadFirst_cons other source rest, loadFirst_cons name source rest]
      split
      · rw [loadFirst_cons, load_after, ih]
        split <;> rfl
      · rw [loadFirst_cons, load_after]
        split <;> rfl

/-- What sources answer about a module is the same at every moment. -/
theorem load_afterAll (name : String) (asked : List String) (sources : List Source) :
    (Loader.load name (Loader.afterAll asked sources)).1 = (Loader.load name sources).1 := by
  induction asked generalizing sources with
  | nil => rfl
  | cons other rest ih => exact (ih _).trans (loadFirst_after name other sources)

end Source

namespace Audit

open Visibility

variable {σ : Type} [Loader σ]

theorem loadRequired_of_unlisted {catalog : Catalog} {name : String}
    (unlisted : catalog.isTableLike name = false) (sources : σ) :
    loadRequired catalog name sources = Loader.load name sources := by
  rw [Catalog.isTableLike] at unlisted
  rw [loadRequired]
  cases found : catalog.find? name with
  | none => rfl
  | some shape =>
      rw [found, Option.any_some] at unlisted
      simp only [unlisted, Bool.false_eq_true, if_false]

/-! ## One submodule -/

section Nesting

variable {require : Require} {exports : Shape} {scope : Visibility} {root : String}
  {rest : List String}

theorem lookup_defineReceiver {name : String} (differ : require.receiver ≠ some name)
    (shape : Shape) (scope : Visibility) :
    (defineReceiver require shape scope).lookup name = scope.lookup name := by
  rw [defineReceiver]
  split
  · rename_i receiver received
    have other : name ≠ receiver := by
      rintro rfl
      exact differ received
    rw [lookup_define, if_neg other]
  · rfl

/-- The scope after a submodule is loaded, the segments behind its first one being given. -/
def nest (require : Require) (exports : Shape) (root : String) (rest : List String)
    (scope : Visibility) : Visibility :=
  defineReceiver require exports
    (scope.define root (.table (Shape.putAt exports rest (visibleFields root scope))))

theorem lookup_nest {name : String} (differ : require.receiver ≠ some name) :
    (nest require exports root rest scope).lookup name =
      if name = root then some (.table (Shape.putAt exports rest (visibleFields root scope)))
      else scope.lookup name := by
  rw [nest, lookup_defineReceiver differ, lookup_define]

/-- The submodule is found under its name. -/
theorem resolve_nest_self (path : Dotted.segments require.name = root :: rest) (deep : rest ≠ [])
    (differ : require.receiver ≠ some root) :
    (nest require exports root rest scope).resolve require.name = .defined exports := by
  rw [resolve_eq_defined_iff_lookup path, lookup_nest differ, if_pos rfl]
  refine ⟨_, rfl, ?_⟩
  have atEnd := Shape.follow?_putAt_below exports deep [] (visibleFields root scope)
  rwa [List.append_nil] at atEnd

/-- A name that is apart from the submodule's stays what it was. -/
theorem resolve_nest_of_apart (path : Dotted.segments require.name = root :: rest) {name : String}
    (apart : Dotted.Apart require.name name) (differ : require.receiver ≠ some (Dotted.root name))
    {shape : Shape} (before : scope.resolve name = .defined shape) :
    (nest require exports root rest scope).resolve name = .defined shape := by
  obtain ⟨behind, split⟩ := Dotted.segments_eq_root_cons name
  obtain ⟨start, bound, reached⟩ := (resolve_eq_defined_iff_lookup split shape).mp before
  rw [resolve_eq_defined_iff_lookup split, lookup_nest differ]
  by_cases same : Dotted.root name = root
  · rw [if_pos same]
    refine ⟨_, rfl, ?_⟩
    obtain ⟨notBelow, notAbove⟩ := apart
    rw [path, split, same, List.cons_prefix_cons, not_and] at notBelow
    rw [path, split, same, List.cons_prefix_cons, not_and] at notAbove
    rw [Shape.follow?_putAt_of_fork exports (notBelow rfl) (notAbove rfl)]
    -- the name goes on below its root, so a table is bound there
    cases behind with
    | nil => exact absurd List.nil_prefix (notAbove rfl)
    | cons next more =>
        obtain ⟨fields, rfl⟩ := Shape.exists_table_of_follow? reached
        rw [same] at bound
        rwa [visibleFields, bound]
  · rw [if_neg same]
    exact ⟨start, bound, reached⟩

theorem defineGlobal_of_dotted {name next : String}
    (path : Dotted.segments name = root :: next :: rest) :
    defineGlobal name exports ⟨root, false⟩ scope = scope.define root
      (.table (Shape.putAt exports (next :: rest) (visibleFields root scope))) := by
  obtain ⟨plain, field, rfl, behind⟩ := Dotted.eq_extend_of_segments path
  have cut : Text.cut? '.' (Dotted.extend root field).toList =
      some (root.toList, field.toList) := by
    rw [Dotted.toList_extend]
    exact Text.cut?_append ((Dotted.isDotted_eq_false_iff root).mp plain) field.toList
  simp only [defineGlobal, Bool.false_eq_true, if_false, cut, Shape.putPath, String.ofList_toList,
    behind]

end Nesting

/-! ## All submodules -/

/-- Requires of submodules that the catalog does not have and the sources load when it is their turn.
None is at or below another, each brings the global of its first segment and no other, and no local
that receives one has the name of such a global. -/
structure Submodules (catalog : Catalog) (sources : σ) (exports : String → Shape)
    (requires : List Require) : Prop where
  dotted : ∀ require ∈ requires, Dotted.isDotted require.name = true
  unlisted : ∀ require ∈ requires, catalog.isTableLike require.name = false
  apart : requires.Pairwise fun first second => Dotted.Apart first.name second.name
  loaded : ∀ early require late, requires = early ++ require :: late →
    (Loader.load require.name (Loader.afterAll (early.map Require.name) sources)).1 =
      .ok ⟨exports require.name, [⟨Dotted.root require.name, false⟩]⟩
  received : ∀ receiving ∈ requires, ∀ require ∈ requires,
    receiving.receiver ≠ some (Dotted.root require.name)

section Run

variable {catalog : Catalog} {policy : Policy} {exports : String → Shape} {require : Require}
  {rest : List Require} {loading : Loading σ}

theorem Submodules.tail {sources : σ}
    (submodules : Submodules catalog sources exports (require :: rest)) :
    Submodules catalog (Loader.load require.name sources).2 exports rest where
  dotted other member := submodules.dotted other (List.mem_cons_of_mem _ member)
  unlisted other member := submodules.unlisted other (List.mem_cons_of_mem _ member)
  apart := (List.pairwise_cons.mp submodules.apart).2
  loaded early other late split :=
    submodules.loaded (require :: early) other late (congrArg (require :: ·) split)
  received receiving received other member :=
    submodules.received receiving (List.mem_cons_of_mem _ received) other
      (List.mem_cons_of_mem _ member)

/-- A require of a submodule warns of nothing and nests it. -/
theorem Submodules.addRequire_eq
    (submodules : Submodules catalog loading.sources exports (require :: rest))
    (resolves : policy.resolve = true) {root next : String} {behind : List String}
    (path : Dotted.segments require.name = root :: next :: behind) :
    addRequire catalog policy loading require =
      ⟨nest require (exports require.name) root (next :: behind) loading.scope, loading.warnings,
        (Loader.load require.name loading.sources).2⟩ := by
  have dotted := submodules.dotted require List.mem_cons_self
  have unlisted := submodules.unlisted require List.mem_cons_self
  have loaded : (Loader.load require.name loading.sources).1 = _ :=
    submodules.loaded [] require rest rfl
  rw [Dotted.root_of_segments path] at loaded
  have allowed : isAllowed require.name ⟨root, false⟩ = true := by
    simp [isAllowed, dotted, Dotted.root_of_segments path]
  rw [Audit.addRequire_eq catalog policy resolves, loadRequired_of_unlisted unlisted, loaded]
  simp only [receive, List.foldl_cons, List.foldl_nil, addGlobal, allowed, if_true,
    defineGlobal_of_dotted path, nest]

/-- After requires of submodules all of them are found, and so is every name apart from them that no
receiving local takes over. -/
theorem Submodules.foldl_addRequire {requires : List Require}
    (submodules : Submodules catalog loading.sources exports requires)
    (resolves : policy.resolve = true) :
    let after := requires.foldl (addRequire catalog policy) loading
    after.warnings = loading.warnings ∧
      (∀ require ∈ requires,
        after.scope.resolve require.name = .defined (exports require.name)) ∧
      ∀ name shape, loading.scope.resolve name = .defined shape →
        (∀ require ∈ requires, Dotted.Apart require.name name) →
        (∀ require ∈ requires, require.receiver ≠ some (Dotted.root name)) →
        after.scope.resolve name = .defined shape := by
  induction requires generalizing loading with
  | nil =>
      refine ⟨rfl, ?_, fun _ _ before _ _ => before⟩
      intro require member
      cases member
  | cons require rest ih =>
      obtain ⟨next, behind, path⟩ :=
        Dotted.exists_segments_of_dotted (submodules.dotted require List.mem_cons_self)
      have first := submodules.addRequire_eq resolves path
      have later : Submodules catalog (addRequire catalog policy loading require).sources exports
          rest := by
        rw [first]
        exact submodules.tail
      obtain ⟨quiet, found, kept⟩ := ih later
      obtain ⟨ahead, _⟩ := List.pairwise_cons.mp submodules.apart
      refine ⟨?_, ?_, ?_⟩
      · rw [List.foldl_cons, quiet, first]
      · intro other member
        rcases List.mem_cons.mp member with rfl | member
        · refine kept other.name _ ?_ (fun next inRest => (ahead next inRest).symm) ?_
          · have free := submodules.received other List.mem_cons_self other List.mem_cons_self
            rw [first]
            exact resolve_nest_self path (List.cons_ne_nil _ _) free
          · intro receiving inRest
            exact submodules.received receiving (List.mem_cons_of_mem _ inRest) other
              List.mem_cons_self
        · exact found other member
      · intro name shape before apart free
        obtain ⟨apartFirst, apartRest⟩ := List.forall_mem_cons.mp apart
        obtain ⟨freeFirst, freeRest⟩ := List.forall_mem_cons.mp free
        refine kept name shape ?_ apartRest freeRest
        rw [first]
        exact resolve_nest_of_apart path apartFirst freeFirst before

/-- Submodules that are required one after the other accumulate. When each of them is loaded, there
is no warning, each is found under its name with its own exports, and every name of the catalog
under one of their roots that is apart from all of them is found as it was. A root itself is not
apart from what is below it, so such a name has two segments at least. -/
theorem submodules_accumulate {facts : Facts} {sources : σ}
    (resolves : policy.resolve = true)
    (submodules : Submodules catalog sources exports facts.requires) :
    let loading := addRequires catalog policy facts sources
    loading.warnings = [] ∧
      (∀ require ∈ facts.requires,
        loading.scope.resolve require.name = .defined (exports require.name)) ∧
      ∀ name shape, catalog.find? name = some shape →
        (∃ require ∈ facts.requires, Dotted.root require.name = Dotted.root name) →
        (∀ require ∈ facts.requires, Dotted.Apart require.name name) →
        loading.scope.resolve name = .defined shape := by
  have start : Submodules catalog (Loading.mk (ofCatalog catalog).pushLayer [] sources).sources
      exports facts.requires := submodules
  obtain ⟨quiet, found, kept⟩ := start.foldl_addRequire resolves
  refine ⟨quiet, found, ?_⟩
  rintro name shape listed ⟨require, member, same⟩ apart
  refine kept name shape ?_ apart ?_
  · obtain ⟨rest, path⟩ := Dotted.segments_eq_root_cons name
    exact (resolve_ofCatalog_eq_defined_iff catalog path shape).mpr listed
  · intro receiving received
    rw [← same]
    exact submodules.received receiving received require member

end Run

/-- A library of which one field is a table and another may be anything. -/
def socketCatalog : Catalog :=
  ⟨[("socket", .table [("url", .scalar .function), ("http", .scalar .any),
    ("core", .table [("version", .scalar .string)])])]⟩

def socketExports (name : String) : Shape :=
  if name = "socket.http" then .table [("request", .scalar .function)]
  else .table [("connect", .scalar .function)]

/-- Two submodules of the library, one where the catalog has something else and one beside what it
has, with a submodule of another library in between. -/
def socketFacts : Facts :=
  { Facts.empty with
    requires := [⟨1, "socket.http", some "http"⟩, ⟨2, "ltn.pump", none⟩,
      ⟨3, "socket.core.tcp", some "tcp"⟩] }

def socketSource : Source :=
  .ofProbe fun name => .ok ⟨socketExports name, [⟨Dotted.root name, false⟩]⟩

theorem submodules_accumulate_socket :
    Submodules socketCatalog [socketSource] socketExports socketFacts.requires ∧
      (addRequires socketCatalog ⟨false, true⟩ socketFacts [socketSource]).warnings = [] ∧
      (addRequires socketCatalog ⟨false, true⟩ socketFacts [socketSource]).scope.resolve
          "socket.http" = .defined (.table [("request", .scalar .function)]) ∧
      (addRequires socketCatalog ⟨false, true⟩ socketFacts [socketSource]).scope.resolve
          "socket.core.version" = .defined (.scalar .string) := by
  have submodules :
      Submodules socketCatalog [socketSource] socketExports socketFacts.requires :=
    ⟨by decide, by decide, by decide, fun _ _ _ _ => Source.load_afterAll _ _ _, by decide⟩
  have resolves : Policy.resolve ⟨false, true⟩ = true := rfl
  obtain ⟨quiet, found, kept⟩ := submodules_accumulate resolves submodules
  refine ⟨submodules, quiet, found ⟨1, "socket.http", some "http"⟩ List.mem_cons_self, ?_⟩
  exact kept "socket.core.version" (.scalar .string) rfl
    ⟨⟨1, "socket.http", some "http"⟩, List.mem_cons_self, by decide⟩ (by decide)

end Audit

end GlobalAudit
