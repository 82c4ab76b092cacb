import GlobalAudit.Audit.Judgement
import GlobalAudit.Proofs.FirstOccurrences
import GlobalAudit.Proofs.Visibility
import Mathlib.Data.List.TakeWhile

/-! Files that share their sources. The interpreter behind the declared modules remembers its answers
from one file to the next. What it remembers is what it would say again, so no verdict depends on the
files before it, and it is run once for each module that nobody declares. -/
namespace GlobalAudit

namespace Loader

variable {σ : Type} [Loader σ]

/-- A loader when it was asked for modules one after the other. -/
def afterAll (requests : List String) (loader : σ) : σ :=
  requests.foldl (fun loader name => (load name loader).2) loader

theorem afterAll_append (early late : List String) (loader : σ) :
    afterAll (early ++ late) loader = afterAll late (afterAll early loader) := List.foldl_append

end Loader

/-! ## Remembered answers -/

namespace Remembering

variable {σ : Type} [Loader σ]

/-- The answer of a loader to the first of several requests for a module, when it is asked for each of
the modules before once. -/
def firstAnswer (loader : σ) (requests : List String) (name : String) : LoadAnswer :=
  (Loader.load name (Loader.afterAll (requests.takeWhile (· != name)).eraseDups loader)).1

theorem bne_of_not_mem {requests : List String} {name : String} (absent : name ∉ requests) :
    ∀ other ∈ requests, (other != name) = true := by
  intro other member
  simpa using fun same : other = name => absent (same ▸ member)

theorem takeWhile_ne_concat {requests : List String} {name : String} (member : name ∈ requests)
    (last : String) : (requests ++ [last]).takeWhile (· != name) = requests.takeWhile (· != name) := by
  induction requests with
  | nil => cases member
  | cons first rest ih =>
      by_cases here : first = name
      · simp [here]
      · have later : name ∈ rest := (List.mem_cons.mp member).resolve_left (Ne.symm here)
        rw [List.cons_append, List.takeWhile_cons_of_pos (by simpa using here), ih later,
          List.takeWhile_cons_of_pos (by simpa using here)]

theorem eraseDups_concat_of_mem {requests : List String} {last : String} (member : last ∈ requests) :
    (requests ++ [last]).eraseDups = requests.eraseDups := by
  rw [FirstOccurrences.eraseDups_concat, FirstOccurrences.add, if_pos (List.mem_eraseDups.mpr member)]

theorem eraseDups_concat_of_not_mem {requests : List String} {last : String}
    (absent : last ∉ requests) : (requests ++ [last]).eraseDups = requests.eraseDups ++ [last] := by
  rw [FirstOccurrences.eraseDups_concat, FirstOccurrences.add,
    if_neg (mt List.mem_eraseDups.mp absent)]

/-- Further requests do not change the first answer. -/
theorem firstAnswer_concat {requests : List String} {name : String} (member : name ∈ requests)
    (loader : σ) (last : String) :
    firstAnswer loader (requests ++ [last]) name = firstAnswer loader requests name := by
  rw [firstAnswer, takeWhile_ne_concat member, firstAnswer]

theorem firstAnswer_of_not_mem {requests : List String} {name : String} (absent : name ∉ requests)
    (loader : σ) : firstAnswer loader requests name =
      (Loader.load name (Loader.afterAll requests.eraseDups loader)).1 := by
  rw [firstAnswer, List.takeWhile_eq_self_iff.mpr (bne_of_not_mem absent)]

theorem firstAnswer_concat_self {requests : List String} {last : String} (absent : last ∉ requests)
    (loader : σ) : firstAnswer loader (requests ++ [last]) last =
      (Loader.load last (Loader.afterAll requests.eraseDups loader)).1 := by
  rw [firstAnswer, List.takeWhile_append_of_pos (bne_of_not_mem absent)]
  simp

/-- What is remembered after requests: each module that was asked for, with the first answer. -/
structure Holds (loader : σ) (requests : List String) (memory : Remembering σ) : Prop where
  asked : memory.loader = Loader.afterAll requests.eraseDups loader
  known : ∀ name, Fields.get? name memory.answers =
    if name ∈ requests then some (firstAnswer loader requests name) else none

namespace Holds

variable {loader : σ} {requests : List String} {memory : Remembering σ}

theorem start (loader : σ) : Holds loader [] ⟨loader, []⟩ := ⟨rfl, fun _ => rfl⟩

/-- A request is answered with the first answer. -/
theorem load_fst (holds : Holds loader requests memory) (name : String) :
    (memory.load name).1 = firstAnswer loader requests name := by
  rw [load, holds.known name]
  by_cases member : name ∈ requests
  · rw [if_pos member]
  · rw [if_neg member]
    exact holds.asked ▸ (firstAnswer_of_not_mem member loader).symm

theorem load_snd (holds : Holds loader requests memory) (last : String) :
    Holds loader (requests ++ [last]) (memory.load last).2 := by
  rw [load, holds.known last]
  by_cases member : last ∈ requests
  · rw [if_pos member]
    refine ⟨holds.asked.trans (by rw [eraseDups_concat_of_mem member]), ?_⟩
    intro name
    have same : name ∈ requests ++ [last] ↔ name ∈ requests := by
      rw [List.mem_append, List.mem_singleton]
      exact or_iff_left_of_imp fun here => here ▸ member
    rw [holds.known name]
    by_cases known : name ∈ requests
    · rw [if_pos known, if_pos (same.mpr known), firstAnswer_concat known]
    · rw [if_neg known, if_neg (mt same.mp known)]
  · rw [if_neg member]
    refine ⟨?_, ?_⟩
    · rw [eraseDups_concat_of_not_mem member, Loader.afterAll_append, ← holds.asked]
      rfl
    · intro name
      dsimp only
      rw [Fields.get?_append, holds.known name]
      by_cases known : name ∈ requests
      · rw [if_pos known, if_pos (List.mem_append_left _ known), firstAnswer_concat known]
        rfl
      · rw [if_neg known, Option.none_or, Fields.get?]
        by_cases here : last = name
        · subst here
          rw [if_pos rfl, if_pos (List.mem_append_right _ (List.mem_singleton_self _)),
            firstAnswer_concat_self member, holds.asked]
        · have stillUnknown : name ∉ requests ++ [last] := by simp [known, Ne.symm here]
          rw [if_neg here, if_neg stillUnknown]
          rfl

end Holds

/-- Whatever loader is behind the memory, it is asked once for each module, at the first request; every
request is answered with what it said then. -/
theorem holds_afterAll (loader : σ) (requests : List String) :
    Holds loader requests (Loader.afterAll requests (⟨loader, []⟩ : Remembering σ)) := by
  induction requests using List.reverseRecOn with
  | nil => exact .start loader
  | append_singleton requests last ih =>
      rw [Loader.afterAll_append]
      exact ih.load_snd last

end Remembering

/-! ## Declared modules before an interpreter -/

namespace Source

/-- Declared modules, then an interpreter that was run for some modules and remembers its answers. -/
def chain (declared : List Catalog) (probe : String → LoadAnswer) (known : List String) :
    List Source :=
  declared.map Source.declared ++
    [.interpreter ⟨⟨probe, known⟩, known.map fun name => (name, probe name)⟩]

/-- Declared modules, then an interpreter that has not been run. -/
def fresh (declared : List Catalog) (probe : String → LoadAnswer) : List Source :=
  declared.map Source.declared ++ [.ofProbe probe]

theorem fresh_eq_chain (declared : List Catalog) (probe : String → LoadAnswer) :
    fresh declared probe = chain declared probe [] := rfl

theorem runs_chain (declared : List Catalog) (probe : String → LoadAnswer) (known : List String) :
    (chain declared probe known).flatMap runs = known := by
  simp [chain, runs, List.flatMap_map]

/-- A module that no catalog has. -/
def isUndeclared (declared : List Catalog) (name : String) : Bool :=
  declared.all fun modules => (modules.find? name).isNone

/-- The answer of the first catalog that has the module, else that of the probe. -/
def answer (declared : List Catalog) (probe : String → LoadAnswer) (name : String) : LoadAnswer :=
  match declared.findSome? fun modules => modules.find? name with
  | some exports => .ok ⟨exports, []⟩
  | none =>
    match probe name with
    | .error (.notFound _) => .error (.notFound name)
    | answer => answer

/-- The modules for which the interpreter was run after one more request. -/
def learn (declared : List Catalog) (known : List String) (name : String) : List String :=
  if isUndeclared declared name then FirstOccurrences.add known name else known

variable {probe : String → LoadAnswer} {known : List String}

/-- An interpreter says what its probe says, and is run unless it knows the module. -/
theorem load_interpreter (name : String) :
    (Source.interpreter ⟨⟨probe, known⟩, known.map fun name => (name, probe name)⟩).load name =
      (probe name, .interpreter ⟨⟨probe, FirstOccurrences.add known name⟩,
        (FirstOccurrences.add known name).map fun name => (name, probe name)⟩) := by
  simp only [load, Remembering.load, Fields.get?_map, FirstOccurrences.add]
  by_cases member : name ∈ known
  · simp only [if_pos member]
  · simp only [if_neg member, List.map_append, List.map_cons, List.map_nil]
    rfl

theorem isUndeclared_cons (modules : Catalog) (rest : List Catalog) (name : String) :
    isUndeclared (modules :: rest) name =
      ((modules.find? name).isNone && isUndeclared rest name) := rfl

/-- One request: the answer does not depend on what the interpreter knows. -/
theorem load_chain (declared : List Catalog) (name : String) :
    Loader.load name (chain declared probe known) =
      (answer declared probe name, chain declared probe (learn declared known name)) := by
  change loadFirst name _ = _
  induction declared with
  | nil =>
      have undeclared : isUndeclared [] name = true := rfl
      simp only [chain, List.map_nil, List.nil_append, loadFirst, load_interpreter, learn,
        undeclared, if_true, answer, List.findSome?_nil]
      -- A module that is not found is reported at the end of the sources.
      cases probe name with
      | ok loaded => rfl
      | error reason => cases reason <;> rfl
  | cons modules rest ih =>
      simp only [chain, List.map_cons, List.cons_append, loadFirst, load]
      cases found : modules.find? name with
      | some exports =>
          simp [answer, learn, isUndeclared_cons, found]
      | none =>
          rw [chain] at ih
          simp [ih, answer, learn, isUndeclared_cons, found, chain]

/-- The interpreter ends with the modules that nobody declares, each once, and knows their probes. -/
theorem afterAll_chain (declared : List Catalog) (requests : List String) :
    Loader.afterAll requests (chain declared probe known) =
      chain declared probe (requests.foldl (learn declared) known) := by
  induction requests generalizing known with
  | nil => rfl
  | cons name rest ih =>
      rw [Loader.afterAll, List.foldl_cons, load_chain]
      exact ih

theorem foldl_learn (declared : List Catalog) (requests : List String) :
    requests.foldl (learn declared) [] = (requests.filter (isUndeclared declared)).eraseDups := by
  rw [← FirstOccurrences.foldl_add, List.foldl_filter]
  rfl

theorem afterAll_fresh (declared : List Catalog) (requests : List String) :
    Loader.afterAll requests (fresh declared probe) =
      chain declared probe (requests.filter (isUndeclared declared)).eraseDups := by
  rw [fresh_eq_chain, afterAll_chain, foldl_learn]

end Source

namespace Audit

/-! ## Verdicts -/

/-- Whether a required module is looked up in the sources, not in the catalog. -/
def asksSources (catalog : Catalog) (name : String) : Bool :=
  !(catalog.find? name).any Shape.isTableLike

/-- The modules for which requires ask the sources, in order. -/
def requests (catalog : Catalog) (policy : Policy) (requires : List Require) : List String :=
  if policy.resolve then (requires.map Require.name).filter (asksSources catalog) else []

variable {σ : Type}

theorem loadRequired_sources [Loader σ] (catalog : Catalog) (name : String) (sources : σ) :
    (loadRequired catalog name sources).2 =
      Loader.afterAll ([name].filter (asksSources catalog)) sources := by
  rw [loadRequired]
  cases found : catalog.find? name with
  | none => simp [asksSources, found, Loader.afterAll]
  | some shape => cases tableLike : shape.isTableLike <;>
      simp [asksSources, found, tableLike, Loader.afterAll]

/-- What the answer about a required module leads to. -/
def receive (require : Require) (answer : LoadAnswer) (loading : Loading σ) : Loading σ :=
  match answer with
  | .error reason =>
    { loading with
      warnings := loading.warnings ++ [.unresolved require.line require.name reason] }
  | .ok loaded =>
    let loading := loaded.newGlobals.foldl (addGlobal require loaded.exports) loading
    { loading with scope := defineReceiver require loaded.exports loading.scope }

theorem addGlobal_withSources (require : Require) (exports : Shape) (loading : Loading σ)
    (sources : σ) (global : NewGlobal) :
    addGlobal require exports { loading with sources } global =
      { addGlobal require exports loading global with sources } := by
  rw [addGlobal, addGlobal]
  split <;> rfl

theorem foldl_addGlobal_withSources (require : Require) (exports : Shape)
    (globals : List NewGlobal) (loading : Loading σ) (sources : σ) :
    globals.foldl (addGlobal require exports) { loading with sources } =
      { globals.foldl (addGlobal require exports) loading with sources } := by
  induction globals generalizing loading with
  | nil => rfl
  | cons global rest ih => rw [List.foldl_cons, addGlobal_withSources, ih, List.foldl_cons]

/-- The answer is all that comes from the sources. -/
theorem receive_withSources (require : Require) (answer : LoadAnswer) (loading : Loading σ)
    (sources : σ) :
    receive require answer { loading with sources } =
      { receive require answer loading with sources } := by
  cases answer with
  | error reason => rfl
  | ok loaded => simp only [receive, foldl_addGlobal_withSources]

variable [Loader σ] (catalog : Catalog) (policy : Policy)

/-- A require asks, receives the answer and goes on with the sources that remember it. -/
theorem addRequire_eq (resolves : policy.resolve = true) (loading : Loading σ) (require : Require) :
    addRequire catalog policy loading require =
      { receive require (loadRequired catalog require.name loading.sources).1 loading with
        sources := (loadRequired catalog require.name loading.sources).2 } := by
  rw [addRequire, if_pos resolves]
  cases loadRequired catalog require.name loading.sources with
  | mk answer sources =>
      cases answer with
      | error reason => rfl
      | ok loaded => simp only [receive, foldl_addGlobal_withSources]

theorem addRequire_sources (loading : Loading σ) (require : Require) :
    (addRequire catalog policy loading require).sources =
      Loader.afterAll (requests catalog policy [require]) loading.sources := by
  cases resolves : policy.resolve with
  | false => simp [addRequire, requests, resolves, Loader.afterAll]
  | true =>
      rw [addRequire_eq catalog policy resolves, requests, if_pos resolves]
      exact loadRequired_sources catalog require.name loading.sources

theorem requests_cons (require : Require) (rest : List Require) :
    requests catalog policy (require :: rest) =
      requests catalog policy [require] ++ requests catalog policy rest := by
  simp only [requests]
  split
  · rw [List.map_cons, List.map_singleton, ← List.filter_append, List.singleton_append]
  · rfl

theorem foldl_addRequire_sources (requires : List Require) (loading : Loading σ) :
    (requires.foldl (addRequire catalog policy) loading).sources =
      Loader.afterAll (requests catalog policy requires) loading.sources := by
  induction requires generalizing loading with
  | nil => simp [requests, Loader.afterAll]
  | cons require rest ih =>
      rw [List.foldl_cons, ih, addRequire_sources, requests_cons catalog policy require rest,
        Loader.afterAll_append]

/-- Two states that differ at most in what the interpreter knows. -/
structure Agree (declared : List Catalog) (probe : String → LoadAnswer)
    (first second : Loading (List Source)) : Prop where
  same : second = { first with sources := second.sources }
  left : ∃ known, first.sources = Source.chain declared probe known
  right : ∃ known, second.sources = Source.chain declared probe known

namespace Agree

variable {catalog policy} {declared : List Catalog} {probe : String → LoadAnswer}
  {first second : Loading (List Source)}

theorem loadRequired (agree : Agree declared probe first second) (name : String) :
    (loadRequired catalog name second.sources).1 = (loadRequired catalog name first.sources).1 := by
  obtain ⟨known, left⟩ := agree.left
  obtain ⟨others, right⟩ := agree.right
  rw [left, right, Audit.loadRequired, Audit.loadRequired, Source.load_chain,
    Source.load_chain]
  split
  · split <;> rfl
  · rfl

theorem addRequire (agree : Agree declared probe first second) (require : Require) :
    Agree declared probe (addRequire catalog policy first require)
      (addRequire catalog policy second require) := by
  refine ⟨?_, ?_, ?_⟩
  · cases resolves : policy.resolve with
    | false =>
        rw [agree.same]
        simp only [Audit.addRequire, resolves]
        rfl
    | true =>
        -- Both get the same answer, and receiving it does not look at the sources.
        rw [addRequire_eq catalog policy resolves, addRequire_eq catalog policy resolves,
          agree.loadRequired]
        nth_rewrite 1 [agree.same]
        rw [receive_withSources]
  · obtain ⟨known, left⟩ := agree.left
    rw [addRequire_sources, left, Source.afterAll_chain]
    exact ⟨_, rfl⟩
  · obtain ⟨known, right⟩ := agree.right
    rw [addRequire_sources, right, Source.afterAll_chain]
    exact ⟨_, rfl⟩

theorem foldl (agree : Agree declared probe first second) (requires : List Require) :
    Agree declared probe (requires.foldl (Audit.addRequire catalog policy) first)
      (requires.foldl (Audit.addRequire catalog policy) second) := by
  induction requires generalizing first second with
  | nil => exact agree
  | cons require rest ih => exact ih (agree.addRequire require)

end Agree

/-- The verdict does not depend on what the interpreter knows. -/
theorem verdict_chain (facts : Facts) (declared : List Catalog) (probe : String → LoadAnswer)
    (known : List String) :
    (verdict catalog policy facts (Source.chain declared probe known)).1 =
      (verdict catalog policy facts (Source.fresh declared probe)).1 := by
  have agree : Agree declared probe
      (addRequires catalog policy facts (Source.fresh declared probe))
      (addRequires catalog policy facts (Source.chain declared probe known)) :=
    Agree.foldl ⟨rfl, ⟨[], rfl⟩, ⟨known, rfl⟩⟩ facts.requires
  rw [verdict, verdict, agree.same]

theorem verdict_sources (facts : Facts) (sources : σ) :
    (verdict catalog policy facts sources).2 =
      Loader.afterAll (requests catalog policy facts.requires) sources :=
  foldl_addRequire_sources catalog policy facts.requires _

end Audit

namespace Listing

/-! ## One file after the other -/

/-- The verdicts on listings in order, with sources that go from each to the next. -/
def auditAll {σ : Type} [Loader σ] (catalog : Catalog) (policy : Policy) :
    List Listing → σ → List Verdict × σ
  | [], sources => ([], sources)
  | listing :: rest, sources =>
    let (verdict, sources) := listing.audit catalog policy sources
    let (verdicts, sources) := auditAll catalog policy rest sources
    (verdict :: verdicts, sources)

/-- The modules for which listings ask the sources, in order. -/
def requests (catalog : Catalog) (policy : Policy) (listings : List Listing) : List String :=
  listings.flatMap fun listing => Audit.requests catalog policy (listing.facts catalog).requires

variable (catalog : Catalog) (policy : Policy)

theorem requests_cons (listing : Listing) (rest : List Listing) :
    requests catalog policy (listing :: rest) =
      Audit.requests catalog policy (listing.facts catalog).requires ++
        requests catalog policy rest := List.flatMap_cons

theorem auditAll_sources {σ : Type} [Loader σ] (listings : List Listing) (sources : σ) :
    (auditAll catalog policy listings sources).2 =
      Loader.afterAll (requests catalog policy listings) sources := by
  induction listings generalizing sources with
  | nil => rfl
  | cons listing rest ih =>
      rw [requests_cons, Loader.afterAll_append, ← Audit.verdict_sources]
      exact ih _

theorem auditAll_verdicts (declared : List Catalog) (probe : String → LoadAnswer)
    (known : List String) (listings : List Listing) :
    (auditAll catalog policy listings (Source.chain declared probe known)).1 =
      listings.map fun listing =>
        (listing.audit catalog policy (Source.fresh declared probe)).1 := by
  induction listings generalizing known with
  | nil => rfl
  | cons listing rest ih =>
      have first := Audit.verdict_chain catalog policy (listing.facts catalog) declared probe known
      have sources : (listing.audit catalog policy (Source.chain declared probe known)).2 =
          Source.chain declared probe _ :=
        (Audit.verdict_sources catalog policy _ _).trans (Source.afterAll_chain declared _)
      rw [List.map_cons, ← ih, ← sources]
      exact congrArg (· :: _) first

/-- Each listing gets the verdict that it gets alone. At every moment the interpreter knows just the
modules it was asked for that nobody declares, each with the answer of its probe, and over all the
listings it is run once for each of them. The memory does this for any loader: it asks for each module
at the first request only, and every request is answered with what the loader said then. -/
theorem verdicts_independent (declared : List Catalog) (probe : String → LoadAnswer)
    (listings : List Listing) :
    let fresh := Source.fresh declared probe
    let requested := requests catalog policy listings
    let sources := (auditAll catalog policy listings fresh).2
    (auditAll catalog policy listings fresh).1 =
        (listings.map fun listing => (listing.audit catalog policy fresh).1) ∧
      sources = Loader.afterAll requested fresh ∧
      (∀ moment, Loader.afterAll (requested.take moment) fresh =
        Source.chain declared probe
          ((requested.take moment).filter (Source.isUndeclared declared)).eraseDups) ∧
      sources.flatMap Source.runs = (requested.filter (Source.isUndeclared declared)).eraseDups ∧
      (sources.flatMap Source.runs).Nodup ∧
      ∀ (σ : Type) [Loader σ] (loader : σ) (asked : List String),
        let memory : Remembering σ := Loader.afterAll asked ⟨loader, []⟩
        memory.loader = Loader.afterAll asked.eraseDups loader ∧
          ∀ name, (memory.load name).1 = Remembering.firstAnswer loader asked name := by
  intro fresh requested sources
  have ends : sources = Loader.afterAll requested fresh :=
    auditAll_sources catalog policy listings fresh
  have once : sources.flatMap Source.runs =
      (requested.filter (Source.isUndeclared declared)).eraseDups := by
    rw [ends, Source.afterAll_fresh, Source.runs_chain]
  refine ⟨auditAll_verdicts catalog policy declared probe [] listings, ends, ?_, once, ?_, ?_⟩
  · intro moment
    exact Source.afterAll_fresh declared _
  · rw [once]
    exact FirstOccurrences.nodup_eraseDups _
  · intro σ _ loader asked
    have holds := Remembering.holds_afterAll loader asked
    exact ⟨holds.asked, holds.load_fst⟩

/-- A file that requires modules, one on each line. -/
def requiring (names : List String) : Listing where
  dialect := .lua51
  functions := [{
    header := "main <t.lua:0,0>"
    instructions := (names.zipIdx 1).flatMap fun (name, line) =>
      [⟨3 * line - 2, line, .getGlobal, 0, some (-1), none, some "require"⟩,
       ⟨3 * line - 1, line, .loadK, 1, some (-2), none, some ("\"" ++ name ++ "\"")⟩,
       ⟨3 * line, line, .call, 0, some 2, some 1, none⟩]
    registers := Registers.empty }]

def declaredList : Catalog := ⟨[("list", .table [("map", .scalar .function)])]⟩

/-- One module fails, all others are empty. -/
def oneFails (name : String) : LoadAnswer :=
  if name = "net" then .error (.failed name "no socket") else .ok ⟨.table [], []⟩

/-- Both files require the module that fails, and it is tried once. -/
theorem verdicts_of_repeatedRequires :
    let fresh := Source.fresh [declaredList] oneFails
    let listings := [requiring ["net", "list"], requiring ["text", "net"]]
    let audited := auditAll .empty ⟨false, true⟩ listings fresh
    requests .empty ⟨false, true⟩ listings = ["net", "list", "text", "net"] ∧
      audited.1 = (listings.map fun listing => (listing.audit .empty ⟨false, true⟩ fresh).1) ∧
      audited.1.map Verdict.warnings =
        [[.unresolved 1 "net" (.failed "net" "no socket")],
          [.unresolved 2 "net" (.failed "net" "no socket")]] ∧
      audited.2.flatMap Source.runs = ["net", "text"] := by
  intro fresh listings audited
  obtain ⟨verdicts, _, _, once, _⟩ :=
    verdicts_independent .empty ⟨false, true⟩ [declaredList] oneFails listings
  have requested : requests .empty ⟨false, true⟩ listings = ["net", "list", "text", "net"] := by
    decide
  have undeclared : (["net", "list", "text", "net"].filter
      (Source.isUndeclared [declaredList])).eraseDups = ["net", "text"] := by decide
  have alone : (listings.map fun listing =>
      (listing.audit .empty ⟨false, true⟩ fresh).1).map Verdict.warnings =
        [[.unresolved 1 "net" (.failed "net" "no socket")],
          [.unresolved 2 "net" (.failed "net" "no socket")]] := by decide
  rw [requested, undeclared] at once
  exact ⟨requested, verdicts, (congrArg (List.map Verdict.warnings) verdicts).trans alone, once⟩

end Listing

end GlobalAudit
