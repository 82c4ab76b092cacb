import GlobalAudit.Command.Run
import GlobalAudit.Proofs.SharedSources

/-! What a run prints and how it ends. Each file has a fate of its own: it is skipped, its listing is
faulty, or a block about it is printed. The fate does not depend on the other files, and the fates of
all files in order give the output and the exit status. -/
namespace GlobalAudit

namespace Source

/-- Declared modules, then an interpreter that has not been asked anything, if there is one. -/
def initial (declared : List Catalog) (probe : Option (String → LoadAnswer)) : List Source :=
  declared.map Source.declared ++ (probe.map Source.ofProbe).toList

theorem load_allDeclared (declared : List Catalog) (name : String) :
    (Loader.load name (declared.map Source.declared)).2 = declared.map Source.declared := by
  change (loadFirst name _).2 = _
  induction declared with
  | nil => rfl
  | cons modules rest ih =>
      rw [List.map_cons, loadFirst, load]
      cases modules.find? name with
      | some exports => rfl
      | none => exact congrArg (Source.declared modules :: ·) ih

theorem afterAll_declared (declared : List Catalog) (requests : List String) :
    Loader.afterAll requests (declared.map Source.declared) = declared.map Source.declared := by
  induction requests with
  | nil => rfl
  | cons name rest ih =>
      rw [Loader.afterAll, List.foldl_cons, load_allDeclared]
      exact ih

end Source

/-- A verdict does not depend on what the sources were asked before. -/
theorem Audit.verdict_afterAll (catalog : Catalog) (policy : Policy) (facts : Facts)
    (declared : List Catalog) (probe : Option (String → LoadAnswer)) (requests : List String) :
    (verdict catalog policy facts (Loader.afterAll requests (Source.initial declared probe))).1 =
      (verdict catalog policy facts (Source.initial declared probe)).1 := by
  cases probe with
  | none =>
      have steady : Loader.afterAll requests (Source.initial declared none) =
          Source.initial declared none := by
        simp only [Source.initial, Option.map_none, Option.toList_none, List.append_nil,
          Source.afterAll_declared]
      rw [steady]
  | some probe =>
      have asked : Loader.afterAll requests (Source.fresh declared probe) =
          Source.chain declared probe _ := Source.afterAll_fresh declared requests
      have same := verdict_chain catalog policy facts declared probe
        (requests.filter (Source.isUndeclared declared)).eraseDups
      rw [← asked] at same
      exact same

theorem Summary.text_eq (count : Summary) :
    count.text = toString count.checked ++ " file(s) checked, " ++ toString count.failed ++ " failed" ++
      (if 0 < count.skipped then ", " ++ toString count.skipped ++ " skipped" else "") ++ "\n" := by
  rw [text]
  by_cases none : count.skipped = 0
  · rw [none]
    rfl
  · rw [beq_false_of_ne none, if_pos (Nat.pos_of_ne_zero none)]
    rfl

namespace Run

/-! ## The fate of a file -/

/-- What becomes of a file. -/
inductive Fate where
  | skipped
  | faulty (fault : Fault)
  /-- The block that is printed about the file, and the findings in it. -/
  | reported (block : String) (findings : List Finding)
  deriving DecidableEq

namespace Fate

def isSkipped : Fate → Bool
  | .skipped => true
  | _ => false

def isFaulty : Fate → Bool
  | .faulty _ => true
  | _ => false

def isReported : Fate → Bool
  | .reported _ _ => true
  | _ => false

/-- Something was found in the file. -/
def isFailed : Fate → Bool
  | .reported _ findings => !findings.isEmpty
  | _ => false

/-- The block of a file that is reported. -/
def block? : Fate → Option String
  | .reported block _ => some block
  | _ => none

end Fate

/-- The fate of a file whose modules come from these sources. -/
def fate (plan : Plan) (sources : List Source) (path : String) : Fate :=
  match plan.tools.disassemble plan.settings.compiler path with
  | .error _ => .skipped
  | .ok text =>
    match Listing.parse plan.dialect text with
    | .error fault => .faulty fault
    | .ok listing =>
      match plan.settings.mode with
      | .lines first last => .reported (linesText plan.settings.json path first last listing) []
      | mode =>
        let verdict := (listing.audit plan.catalog plan.settings.policy sources).1
        .reported (verdictText mode plan.settings.json path verdict) verdict.findings

/-- The blocks of files in order. -/
def blocks (fates : List Fate) : String := String.join (fates.filterMap Fate.block?)

theorem blocks_cons (fate : Fate) (rest : List Fate) :
    blocks (fate :: rest) = blocks [fate] ++ blocks rest := by
  rw [blocks, blocks, blocks, ← String.join_append, ← List.filterMap_append, List.singleton_append]

/-- Whether only the instructions of some lines are shown. -/
def showsLines : Mode → Bool
  | .lines _ _ => true
  | _ => false

/-- The count of files by their fates; where only instructions are shown, no file is checked. -/
def tally (mode : Mode) (fates : List Fate) : Summary where
  checked := if showsLines mode then 0 else fates.countP Fate.isReported
  failed := if showsLines mode then 0 else fates.countP Fate.isFailed
  skipped := fates.countP Fate.isSkipped

/-- One more file in the count. -/
def Fate.count (mode : Mode) (summary : Summary) : Fate → Summary
  | .skipped => summary.skip
  | .faulty _ => summary
  | .reported _ findings => if showsLines mode then summary else summary.count findings.isEmpty

theorem foldl_count (mode : Mode) (fates : List Fate) (summary : Summary) :
    fates.foldl (Fate.count mode) summary =
      ⟨summary.checked + (tally mode fates).checked, summary.failed + (tally mode fates).failed,
        summary.skipped + (tally mode fates).skipped⟩ := by
  induction fates generalizing summary with
  | nil => simp [tally]
  | cons fate rest ih =>
      rw [List.foldl_cons, ih]
      cases fate with
      | skipped =>
          simp [tally, List.countP_cons, Fate.count, Summary.skip, Fate.isReported, Fate.isFailed,
            Fate.isSkipped, Nat.add_assoc, Nat.add_comm 1]
      | faulty fault =>
          simp [tally, Fate.count, Fate.isReported, Fate.isFailed, Fate.isSkipped]
      | reported block findings =>
          cases lines : showsLines mode <;> cases none : findings.isEmpty <;>
            simp [tally, List.countP_cons, lines, Fate.count, Summary.count, Fate.isReported,
              Fate.isFailed, Fate.isSkipped, none, Nat.add_assoc, Nat.add_comm 1]

theorem foldl_count_zero (mode : Mode) (fates : List Fate) :
    fates.foldl (Fate.count mode) .zero = tally mode fates := by
  rw [foldl_count]
  simp [Summary.zero]

/-- Where no listing is faulty, every file is counted. -/
theorem checked_add_skipped {mode : Mode} {fates : List Fate} (checks : showsLines mode = false)
    (clean : ∀ fate ∈ fates, fate.isFaulty = false) :
    (tally mode fates).checked + (tally mode fates).skipped = fates.length := by
  simp only [tally, checks, Bool.false_eq_true, if_false]
  induction fates with
  | nil => rfl
  | cons fate rest ih =>
      obtain ⟨first, later⟩ := List.forall_mem_cons.mp clean
      have counted := ih later
      simp only [List.countP_cons, List.length_cons]
      cases fate with
      | skipped =>
          simp only [Fate.isReported, Fate.isSkipped, Bool.false_eq_true, if_false, if_true]
          omega
      | faulty fault => cases first
      | reported block findings =>
          simp only [Fate.isReported, Fate.isSkipped, Bool.false_eq_true, if_false, if_true]
          omega

/-! ## One file after the other -/

section Files

variable {plan : Plan} {declared : List Catalog} {probe : Option (String → LoadAnswer)}

/-- The sources of a run remember some requests and are otherwise those of its start. -/
def Asked (sources : List Source) (progress : Progress) : Prop :=
  ∃ requests, progress.sources = Loader.afterAll requests sources

theorem asked_start (sources : List Source) : Asked sources ⟨"", .zero, sources⟩ := ⟨[], rfl⟩

theorem fate_eq_faulty_iff (plan : Plan) (sources : List Source) (path : String) (fault : Fault) :
    fate plan sources path = .faulty fault ↔
      ∃ text, plan.tools.disassemble plan.settings.compiler path = .ok text ∧
        Listing.parse plan.dialect text = .error fault := by
  rw [fate]
  cases plan.tools.disassemble plan.settings.compiler path with
  | error reason => simp
  | ok text =>
      cases parsed : Listing.parse plan.dialect text with
      | error reason => simp [parsed]
      | ok listing => cases plan.settings.mode <;> simp [parsed]

theorem file_of_faulty {sources : List Source} {path : String} {fault : Fault}
    (faulty : fate plan sources path = .faulty fault) (progress : Progress) :
    file plan path progress = .error (.listing path fault) := by
  obtain ⟨text, listed, parsed⟩ := (fate_eq_faulty_iff plan sources path fault).mp faulty
  simp only [file, listed, parsed]

/-- A file with a listing is audited, unless only its instructions are shown. -/
theorem file_of_listing {path text : String} {listing : Listing}
    (listed : plan.tools.disassemble plan.settings.compiler path = .ok text)
    (parsed : Listing.parse plan.dialect text = .ok listing)
    (audits : showsLines plan.settings.mode = false) (progress : Progress) :
    let audited := listing.audit plan.catalog plan.settings.policy progress.sources
    file plan path progress = .ok {
      output := progress.output ++
        verdictText plan.settings.mode plan.settings.json path audited.1
      summary := progress.summary.count audited.1.passed
      sources := audited.2 } := by
  simp only [file, listed, parsed]
  cases mode : plan.settings.mode with
  | lines first last =>
      rw [mode] at audits
      cases audits
  | _ => rfl

theorem fate_of_listing {path text : String} {listing : Listing}
    (listed : plan.tools.disassemble plan.settings.compiler path = .ok text)
    (parsed : Listing.parse plan.dialect text = .ok listing)
    (audits : showsLines plan.settings.mode = false) (sources : List Source) :
    let audited := listing.audit plan.catalog plan.settings.policy sources
    fate plan sources path =
      .reported (verdictText plan.settings.mode plan.settings.json path audited.1)
        audited.1.findings := by
  simp only [fate, listed, parsed]
  cases mode : plan.settings.mode with
  | lines first last =>
      rw [mode] at audits
      cases audits
  | _ => rfl

/-- A file whose listing is not faulty adds its block to the output and itself to the count. -/
theorem file_of_not_faulty {path : String} {progress : Progress}
    (clean : (fate plan (Source.initial declared probe) path).isFaulty = false)
    (asked : Asked (Source.initial declared probe) progress) :
    ∃ next, file plan path progress = .ok next ∧
      next.output =
        progress.output ++ blocks [fate plan (Source.initial declared probe) path] ∧
      next.summary =
        (fate plan (Source.initial declared probe) path).count plan.settings.mode
          progress.summary ∧
      Asked (Source.initial declared probe) next := by
  obtain ⟨requests, sources⟩ := asked
  cases listed : plan.tools.disassemble plan.settings.compiler path with
  | error reason =>
      simp only [file, fate, listed]
      exact ⟨_, rfl, String.append_empty.symm, rfl, requests, sources⟩
  | ok text =>
      cases parsed : Listing.parse plan.dialect text with
      | error fault =>
          simp only [fate, listed, parsed] at clean
          cases clean
      | ok listing =>
          cases audits : showsLines plan.settings.mode with
          | true =>
              simp only [file, fate, listed, parsed]
              cases mode : plan.settings.mode with
              | lines first last =>
                  refine ⟨_, rfl, ?_, rfl, requests, sources⟩
                  simp [blocks, Fate.block?]
              | _ =>
                  rw [mode] at audits
                  cases audits
          | false =>
              have same := Audit.verdict_afterAll plan.catalog plan.settings.policy
                (listing.facts plan.catalog) declared probe requests
              rw [← sources] at same
              rw [fate_of_listing listed parsed audits, file_of_listing listed parsed audits]
              refine ⟨_, rfl, ?_, ?_, ?_⟩
              · simp only [Listing.audit, same]
                simp [blocks, Fate.block?]
              · simp only [Listing.audit, same, Fate.count, audits]
                rfl
              · refine ⟨requests ++ Audit.requests plan.catalog plan.settings.policy
                  (listing.facts plan.catalog).requires, ?_⟩
                rw [Loader.afterAll_append, ← sources, ← Audit.verdict_sources]
                rfl

/-- Files without a faulty listing leave their blocks and their count, and the run goes on. -/
theorem files_of_not_faulty (early late : List String) {progress : Progress}
    (clean : ∀ path ∈ early, (fate plan (Source.initial declared probe) path).isFaulty = false)
    (asked : Asked (Source.initial declared probe) progress) :
    let fates := early.map (fate plan (Source.initial declared probe))
    ∃ next, files plan (early ++ late) progress = files plan late next ∧
      next.output = progress.output ++ blocks fates ∧
      next.summary = fates.foldl (Fate.count plan.settings.mode) progress.summary ∧
      Asked (Source.initial declared probe) next := by
  induction early generalizing progress with
  | nil =>
      refine ⟨progress, rfl, ?_, rfl, asked⟩
      simp [blocks]
  | cons path rest ih =>
      obtain ⟨first, later⟩ := List.forall_mem_cons.mp clean
      obtain ⟨middle, done, output, summary, stillAsked⟩ := file_of_not_faulty first asked
      obtain ⟨next, goesOn, allOutput, allSummary, finallyAsked⟩ := ih later stillAsked
      refine ⟨next, ?_, ?_, ?_, finallyAsked⟩
      · rw [List.cons_append, files, done]
        exact goesOn
      · rw [allOutput, output, String.append_assoc, List.map_cons, ← blocks_cons]
      · rw [allSummary, summary]
        rfl

end Files

/-! ## The whole run -/

/-- The command line and the environment give these settings, and the run is to look at files. -/
def Configured (surroundings : Surroundings) (arguments : List String) (settings : Settings) :
    Prop :=
  ∃ options, Options.parse arguments = .ok options ∧ options.mode ≠ .help ∧
    options.mode ≠ .version ∧ Settings.ofOptions options surroundings.environment = .ok settings

theorem Configured.run_eq {surroundings : Surroundings} {arguments : List String}
    {settings : Settings} (configured : Configured surroundings arguments settings) :
    run surroundings arguments = withSettings surroundings settings := by
  obtain ⟨options, parsed, noHelp, noVersion, chosen⟩ := configured
  rw [run, parsed]
  cases mode : options.mode with
  | help => exact absurd mode noHelp
  | version => exact absurd mode noVersion
  | _ => simp only [withOptions, mode, chosen]

/-- The documents that the settings name can be read, and their paths stand for these files. -/
structure Ready (surroundings : Surroundings) (settings : Settings) (whitelist modules : Catalog)
    (files : List String) : Prop where
  whitelists : surroundings.files.readCatalogs settings.whitelists = .ok whitelist
  modules : surroundings.files.readCatalogs settings.modules = .ok modules
  selected : surroundings.files.select settings.paths = .ok files

/-- What the files of a run are audited with. -/
def planOf (surroundings : Surroundings) (settings : Settings) (whitelist : Catalog) : Plan where
  settings := settings
  tools := surroundings.tools
  dialect := dialect surroundings settings
  catalog := (standardCatalog settings.standard (dialect surroundings settings)).merge whitelist

/-- The modules that documents declare, if any document is named. -/
def declaredModules (settings : Settings) (modules : Catalog) : List Catalog :=
  if settings.modules.isEmpty then [] else [modules]

/-- How the interpreter answers, if it is to be asked. -/
def interpreterProbe (surroundings : Surroundings) (settings : Settings) :
    Option (String → LoadAnswer) :=
  if settings.interpreted then some (surroundings.tools.ask settings.interpreter) else none

/-- The fate of a file in a run with these settings and documents, whatever the other files are. -/
def fateOf (surroundings : Surroundings) (settings : Settings) (whitelist modules : Catalog)
    (path : String) : Fate :=
  fate (planOf surroundings settings whitelist)
    (Source.initial (declaredModules settings modules) (interpreterProbe surroundings settings)) path

section Whole

variable {surroundings : Surroundings} {settings : Settings} {whitelist modules : Catalog}
  {selected : List String}

theorem Ready.prepare (ready : Ready surroundings settings whitelist modules selected) :
    prepare surroundings settings = .ok (planOf surroundings settings whitelist,
      Source.initial (declaredModules settings modules) (interpreterProbe surroundings settings),
      selected) := by
  have asked : sources surroundings settings = .ok (Source.initial
      (declaredModules settings modules) (interpreterProbe surroundings settings)) := by
    rw [sources, ready.modules, declaredModules, interpreterProbe]
    cases settings.modules.isEmpty <;> cases settings.interpreted <;> rfl
  rw [Run.prepare, catalog, asked, ready.whitelists, ready.selected]
  rfl

theorem Ready.withSettings_eq (ready : Ready surroundings settings whitelist modules selected) :
    withSettings surroundings settings = finish surroundings settings
      (files (planOf surroundings settings whitelist) selected ⟨"", .zero, Source.initial
        (declaredModules settings modules) (interpreterProbe surroundings settings)⟩) := by
  rw [withSettings, ready.prepare]

/-- The first faulty listing ends the run; what is behind it does not matter. -/
theorem Ready.outcome_of_faulty {early late : List String} {path : String} {fault : Fault}
    (ready : Ready surroundings settings whitelist modules (early ++ path :: late))
    (clean : ∀ other ∈ early,
      (fateOf surroundings settings whitelist modules other).isFaulty = false)
    (faulty : fateOf surroundings settings whitelist modules path = .faulty fault) :
    let outcome := withSettings surroundings settings
    outcome.status = 2 ∧
      outcome.output = blocks (early.map (fateOf surroundings settings whitelist modules)) ∧
      outcome.errors = [complaint (RunError.listing path fault).message] := by
  obtain ⟨next, goesOn, output, _, _⟩ :=
    files_of_not_faulty early (path :: late) clean (asked_start _)
  have ends := file_of_faulty faulty next
  rw [ready.withSettings_eq, goesOn, files, ends]
  refine ⟨rfl, ?_, rfl⟩
  exact output.trans String.empty_append

/-- Without a faulty listing the run reports on all files and counts them. -/
theorem Ready.outcome_of_not_faulty
    (ready : Ready surroundings settings whitelist modules selected)
    (clean : ∀ path ∈ selected,
      (fateOf surroundings settings whitelist modules path).isFaulty = false) :
    let fates := selected.map (fateOf surroundings settings whitelist modules)
    let outcome := withSettings surroundings settings
    outcome.output = blocks fates ++
        (if settings.mode = .check ∧ settings.json = false then (tally settings.mode fates).text
          else "") ∧
      outcome.status = if (tally settings.mode fates).failed = 0 then 0 else 1 := by
  obtain ⟨next, goesOn, output, summary, _⟩ :=
    files_of_not_faulty selected [] clean (asked_start _)
  rw [List.append_nil, files] at goesOn
  have counted : next.summary =
      tally settings.mode (selected.map (fateOf surroundings settings whitelist modules)) :=
    summary.trans (foldl_count_zero _ _)
  have printed : next.output =
      blocks (selected.map (fateOf surroundings settings whitelist modules)) :=
    output.trans String.empty_append
  rw [ready.withSettings_eq, goesOn]
  simp only [finish, counted, printed, Summary.passed, beq_iff_eq]
  exact ⟨trivial, trivial⟩

end Whole

/-- The compiler cannot be run on a file, fails on it, or prints nothing but blanks. -/
def Unlisted (tools : Tools) (compiler path : String) : Prop :=
  match tools.listing compiler path with
  | .error _ => True
  | .ok output => output.status ≠ 0 ∨ isBlankText (Text.Utf8.decodeLossy output.stdout) = true

theorem unlisted_iff (tools : Tools) (compiler path : String) :
    Unlisted tools compiler path ↔ ∃ reason, tools.disassemble compiler path = .error reason := by
  rw [Unlisted, Tools.disassemble]
  cases tools.listing compiler path with
  | error reason => simp
  | ok output =>
      by_cases failed : output.status = 0
      · cases blank : isBlankText (Text.Utf8.decodeLossy output.stdout) <;> simp [failed, blank]
      · simp [failed]

theorem fate_eq_skipped_iff (plan : Plan) (sources : List Source) (path : String) :
    fate plan sources path = .skipped ↔ Unlisted plan.tools plan.settings.compiler path := by
  rw [unlisted_iff, fate]
  cases plan.tools.disassemble plan.settings.compiler path with
  | error reason => simp
  | ok text =>
      cases parsed : Listing.parse plan.dialect text with
      | error fault => simp [parsed]
      | ok listing => cases plan.settings.mode <;> simp [parsed]

/-- The output and the exit status of a run follow from its files. A file without a listing is
skipped; the first faulty listing ends the run with status 2 behind the blocks of the files before
it; otherwise the blocks of all files are printed, and behind them a line with the counts, if the mode
is check and the output is text. Each block is what is printed about its file when it is the only
one. -/
theorem output_and_status {surroundings : Surroundings} {arguments : List String}
    {settings : Settings} (configured : Configured surroundings arguments settings)
    {whitelist modules : Catalog} {selected : List String}
    (ready : Ready surroundings settings whitelist modules selected) :
    let fate := fateOf surroundings settings whitelist modules
    let fates := selected.map fate
    let count := tally settings.mode fates
    let line (count : Summary) :=
      toString count.checked ++ " file(s) checked, " ++ toString count.failed ++ " failed" ++
        (if 0 < count.skipped then ", " ++ toString count.skipped ++ " skipped" else "") ++ "\n"
    let summary (count : Summary) :=
      if settings.mode = .check ∧ settings.json = false then line count else ""
    let outcome := run surroundings arguments
    (∀ path, fate path = .skipped ↔ Unlisted surroundings.tools settings.compiler path) ∧
    (∀ path fault, fate path = .faulty fault ↔
      ∃ text, surroundings.tools.disassemble settings.compiler path = .ok text ∧
        Listing.parse (dialect surroundings settings) text = .error fault) ∧
    (∀ early path fault late, selected = early ++ path :: late →
      (∀ other ∈ early, (fate other).isFaulty = false) → fate path = .faulty fault →
      outcome.status = 2 ∧ outcome.output = blocks (early.map fate) ∧
        outcome.errors = [complaint (RunError.listing path fault).message]) ∧
    ((∀ path ∈ selected, (fate path).isFaulty = false) →
      outcome.output = blocks fates ++ summary count ∧
      outcome.status = (if count.failed = 0 then 0 else 1) ∧
      (showsLines settings.mode = true → outcome.status = 0) ∧
      (showsLines settings.mode = false →
        count.checked + count.skipped = selected.length ∧
        count.failed = fates.countP Fate.isFailed)) ∧
    ∀ path block findings, fate path = .reported block findings →
      ∀ aloneArguments aloneSettings, Configured surroundings aloneArguments aloneSettings →
        aloneSettings = { settings with paths := aloneSettings.paths } →
        surroundings.files.select aloneSettings.paths = .ok [path] →
        (run surroundings aloneArguments).output =
          block ++ summary (tally settings.mode [fate path]) := by
  intro fate fates count line summary outcome
  have summary_eq (count : Summary) : summary count =
      if settings.mode = .check ∧ settings.json = false then count.text else "" := by
    rw [Summary.text_eq]
  simp only [summary_eq]
  refine ⟨?_, ?_, ?_, ?_, ?_⟩
  · intro path
    exact fate_eq_skipped_iff _ _ path
  · intro path fault
    exact fate_eq_faulty_iff _ _ path fault
  · rintro early path fault late rfl clean faulty
    have ended := ready.outcome_of_faulty clean faulty
    rw [← configured.run_eq] at ended
    exact ended
  · intro clean
    have ended := ready.outcome_of_not_faulty clean
    rw [← configured.run_eq] at ended
    refine ⟨ended.1, ended.2, ?_, ?_⟩
    · intro lines
      have none : count.failed = 0 := by simp [count, tally, lines]
      exact ended.2.trans (if_pos none)
    · intro checks
      refine ⟨?_, ?_⟩
      · rw [checked_add_skipped checks, List.length_map]
        intro fate member
        obtain ⟨path, selectedPath, rfl⟩ := List.mem_map.mp member
        exact clean path selectedPath
      · simp [count, tally, checks]
  · intro path block findings reported aloneArguments aloneSettings aloneConfigured same single
    generalize aloneSettings.paths = paths at same single
    subst same
    have aloneReady : Ready surroundings { settings with paths } whitelist modules [path] :=
      ⟨ready.whitelists, ready.modules, single⟩
    have clean : ∀ other ∈ [path], (fate other).isFaulty = false := by
      intro other member
      rw [List.mem_singleton.mp member, reported]
      rfl
    have ended := (aloneReady.outcome_of_not_faulty clean).1
    rw [aloneConfigured.run_eq, ended]
    have printed : blocks [fate path] = block := by
      rw [reported]
      simp [blocks, Fate.block?]
    exact congrArg (· ++ _) printed

/-- The compiler fails on the first of three files, lists the second, which reads a global that
nothing defines, and gives a faulty listing of the third. The second is not below the working
directory. -/
def threeFiles : Surroundings where
  files := ⟨.directory [("home", .directory [("a.lua", .file []), ("c.lua", .file [])]),
    ("srv", .directory [("b.lua", .file [])])], ["home"]⟩
  environment := fun _ => none
  tools := {
    version := fun _ => .error "not found"
    listing := fun _ path =>
      let bytes := fun text : String => text.toList.map fun c => c.toNat.toUInt8
      if path = "a.lua" then .ok ⟨1, [], []⟩
      else if path = "/srv/b.lua" then
        .ok ⟨0, bytes "main <b.lua:0,0>\n1 [2] GETGLOBAL 0 -1 ; x\n", []⟩
      else .ok ⟨0, bytes "1 [1]\n", []⟩
    probe := fun _ _ => .error "not found" }

def threeFilesSettings (paths : List String) : Settings where
  mode := .check
  policy := ⟨false, false⟩
  whitelists := []
  modules := []
  standard := false
  interpreted := true
  json := false
  dialect := none
  compiler := "luac"
  interpreter := "lua"
  log := .warn
  paths := paths

/-- The listing of the second file. -/
def readListing : Listing where
  dialect := .lua51
  functions := [{
    header := "main <b.lua:0,0>"
    instructions := [⟨1, 2, .getGlobal, 0, some (-1), none, some "x"⟩]
    registers := .empty }]

/-- What the three files are audited with. -/
def threeFilesPlan (paths : List String) : Plan :=
  planOf threeFiles (threeFilesSettings paths) .empty

theorem audit_readListing (paths : List String) (sources : List Source) :
    (readListing.audit (threeFilesPlan paths).catalog (threeFilesPlan paths).settings.policy
      sources).1 = ⟨[⟨2, .undefined, false, "x"⟩], [], readListing.facts .empty, []⟩ := by
  have one : Audit.byLine (readListing.facts .empty).references = [⟨2, "x", false⟩] :=
    List.mergeSort_singleton _
  have nothing : (threeFilesPlan paths).catalog = .empty := rfl
  rw [nothing, Listing.audit, Audit.verdict, one]
  rfl

theorem fateOf_unlisted (paths : List String) :
    fateOf threeFiles (threeFilesSettings paths) .empty .empty "a.lua" = .skipped :=
  (fate_eq_skipped_iff _ _ "a.lua").mpr (.inl (by decide))

theorem fateOf_listed (paths : List String) :
    fateOf threeFiles (threeFilesSettings paths) .empty .empty "/srv/b.lua" =
      .reported "/srv/b.lua:2: undefined get x\n" [⟨2, .undefined, false, "x"⟩] := by
  have listed : (threeFilesPlan paths).tools.disassemble (threeFilesPlan paths).settings.compiler
      "/srv/b.lua" = .ok "main <b.lua:0,0>\n1 [2] GETGLOBAL 0 -1 ; x\n" := rfl
  have parsed : Listing.parse (threeFilesPlan paths).dialect
      "main <b.lua:0,0>\n1 [2] GETGLOBAL 0 -1 ; x\n" = .ok readListing := rfl
  rw [fateOf, ← threeFilesPlan, fate_of_listing listed parsed rfl, audit_readListing]
  rfl

theorem isFaulty_fateOf (paths : List String) : ∀ path ∈ ["a.lua", "/srv/b.lua"],
    (fateOf threeFiles (threeFilesSettings paths) .empty .empty path).isFaulty = false := by
  simp only [List.forall_mem_cons, fateOf_unlisted, fateOf_listed]
  exact ⟨rfl, rfl, List.forall_mem_nil _⟩

/-- One run ends without a faulty listing, one has the second file alone, and one ends at the faulty
listing. -/
theorem output_of_threeFiles :
    Configured threeFiles ["--no-stdlib", "a.lua", "/srv/b.lua"]
        (threeFilesSettings ["a.lua", "/srv/b.lua"]) ∧
      Ready threeFiles (threeFilesSettings ["a.lua", "/srv/b.lua"]) .empty .empty
        ["a.lua", "/srv/b.lua"] ∧
      (run threeFiles ["--no-stdlib", "a.lua", "/srv/b.lua"]).status = 1 ∧
      (run threeFiles ["--no-stdlib", "a.lua", "/srv/b.lua"]).output =
        "/srv/b.lua:2: undefined get x\n1 file(s) checked, 1 failed, 1 skipped\n" ∧
      (run threeFiles ["--no-stdlib", "/srv/b.lua"]).output =
        "/srv/b.lua:2: undefined get x\n1 file(s) checked, 1 failed\n" ∧
      Configured threeFiles ["--no-stdlib", "a.lua", "/srv/b.lua", "c.lua"]
        (threeFilesSettings ["a.lua", "/srv/b.lua", "c.lua"]) ∧
      Ready threeFiles (threeFilesSettings ["a.lua", "/srv/b.lua", "c.lua"]) .empty .empty
        ["a.lua", "/srv/b.lua", "c.lua"] ∧
      (run threeFiles ["--no-stdlib", "a.lua", "/srv/b.lua", "c.lua"]).status = 2 ∧
      (run threeFiles ["--no-stdlib", "a.lua", "/srv/b.lua", "c.lua"]).output =
        "/srv/b.lua:2: undefined get x\n" ∧
      (run threeFiles ["--no-stdlib", "a.lua", "/srv/b.lua", "c.lua"]).errors =
        ["globcheck: c.lua: listing line 1: malformed instruction: missing opcode"] := by
  have configured : Configured threeFiles ["--no-stdlib", "a.lua", "/srv/b.lua"]
      (threeFilesSettings ["a.lua", "/srv/b.lua"]) := ⟨_, rfl, by decide, by decide, rfl⟩
  have ready : Ready threeFiles (threeFilesSettings ["a.lua", "/srv/b.lua"]) .empty .empty
      ["a.lua", "/srv/b.lua"] := ⟨rfl, rfl, rfl⟩
  have configuredToo : Configured threeFiles ["--no-stdlib", "a.lua", "/srv/b.lua", "c.lua"]
      (threeFilesSettings ["a.lua", "/srv/b.lua", "c.lua"]) := ⟨_, rfl, by decide, by decide, rfl⟩
  have readyToo : Ready threeFiles (threeFilesSettings ["a.lua", "/srv/b.lua", "c.lua"]) .empty .empty
      ["a.lua", "/srv/b.lua", "c.lua"] := ⟨rfl, rfl, rfl⟩
  obtain ⟨_, _, _, prints, alone⟩ := output_and_status configured ready
  obtain ⟨_, faults, ends, _, _⟩ := output_and_status configuredToo readyToo
  have third : fateOf threeFiles (threeFilesSettings ["a.lua", "/srv/b.lua", "c.lua"]) .empty .empty
      "c.lua" = .faulty ⟨1, .instruction .noOpcode⟩ := (faults "c.lua" _).mpr ⟨"1 [1]\n", rfl, rfl⟩
  obtain ⟨output, status, _, _⟩ := prints (isFaulty_fateOf _)
  have single := alone "/srv/b.lua" _ _ (fateOf_listed _) ["--no-stdlib", "/srv/b.lua"]
    (threeFilesSettings ["/srv/b.lua"]) ⟨_, rfl, by decide, by decide, rfl⟩ rfl rfl
  obtain ⟨faultyStatus, faultyOutput, errors⟩ :=
    ends ["a.lua", "/srv/b.lua"] "c.lua" _ [] rfl (isFaulty_fateOf _) third
  simp only [List.map_cons, List.map_nil, fateOf_unlisted, fateOf_listed]
    at output status single faultyOutput
  exact ⟨configured, ready, status, output.trans (by decide), single.trans (by decide), configuredToo,
    readyToo, faultyStatus, faultyOutput.trans (by decide), errors⟩

end Run

end GlobalAudit
