import GlobalAudit.Audit.Judgement
import GlobalAudit.Catalog.Standard
import GlobalAudit.Command.Settings
import GlobalAudit.Files.Documents
import GlobalAudit.Files.Selection
import GlobalAudit.Output.CrossReference
import GlobalAudit.Output.Decoded
import GlobalAudit.Output.Report
import GlobalAudit.Tools

/-! A whole run. All that a run depends on is given: the command line, the environment, the files
and the programs. It ends with an exit status, what is printed and what is reported as an error. -/
namespace GlobalAudit

/-- The surroundings of a run. -/
structure Surroundings where
  files : FileSystem
  environment : String → Option String
  tools : Tools

/-- Why a run stops. -/
inductive RunError where
  | document (fault : DocumentFileError)
  | selection (fault : SelectionError)
  | listing (path : String) (fault : Fault)
  deriving DecidableEq, Repr

def RunError.message : RunError → String
  | .document fault => fault.message
  | .selection fault => fault.message
  | .listing path fault => s!"{path}: {fault.message}"

namespace Run

/-- The dialect of a run; a compiler that cannot be asked or is not known counts as Lua 5.1. -/
def dialect (surroundings : Surroundings) (settings : Settings) : Dialect :=
  match settings.dialect with
  | some dialect => dialect
  | none =>
    match surroundings.tools.detect settings.compiler with
    | .ok (some dialect) => dialect
    | _ => .lua51

/-- The globals that are allowed from the start. -/
def standardCatalog (standard : Bool) (dialect : Dialect) : Catalog :=
  match standard, dialect with
  | false, _ => .empty
  | true, .lua51 => .lua51
  | true, .lua52 => .lua52

/-- The allowed globals of a run. -/
def catalog (surroundings : Surroundings) (settings : Settings) (dialect : Dialect) :
    Except DocumentFileError Catalog :=
  (surroundings.files.readCatalogs settings.whitelists).map
    (standardCatalog settings.standard dialect).merge

/-- The sources of modules: declared ones first, then the interpreter. -/
def sources (surroundings : Surroundings) (settings : Settings) :
    Except DocumentFileError (List Source) :=
  let interpreter :=
    if settings.interpreted then [Source.ofProbe (surroundings.tools.ask settings.interpreter)] else []
  if settings.modules.isEmpty then .ok interpreter
  else (surroundings.files.readCatalogs settings.modules).map fun modules =>
    .declared modules :: interpreter

/-- The report about a verdict. -/
def verdictText (mode : Mode) (json : Bool) (path : String) (verdict : Verdict) : String :=
  match mode, json with
  | .xref, true => (verdict.xrefJson path).line
  | .xref, false => verdict.xrefText path
  | .dump, true => (verdict.dumpJson path).line
  | .dump, false => verdict.dumpText path
  | _, true => (verdict.checkJson path).line
  | _, false => verdict.checkText path

/-- The instructions of a range of lines. -/
def linesText (json : Bool) (path : String) (first last : Nat) (listing : Listing) : String :=
  if json then (listing.linesJson path first last).line else listing.linesText path first last

/-- What is done so far. -/
structure Progress where
  output : String
  summary : Summary
  sources : List Source

/-- What every file of a run is audited with. -/
structure Plan where
  settings : Settings
  tools : Tools
  dialect : Dialect
  catalog : Catalog

/-- One file. A file without a listing is skipped, one with a faulty listing ends the run. -/
def file (plan : Plan) (path : String) (progress : Progress) : Except RunError Progress :=
  match plan.tools.disassemble plan.settings.compiler path with
  | .error _ => .ok { progress with summary := progress.summary.skip }
  | .ok text =>
    match Listing.parse plan.dialect text with
    | .error fault => .error (.listing path fault)
    | .ok listing =>
      match plan.settings.mode with
      | .lines first last =>
        .ok { progress with
          output := progress.output ++ linesText plan.settings.json path first last listing }
      | mode =>
        let (verdict, sources) := listing.audit plan.catalog plan.settings.policy progress.sources
        .ok {
          output := progress.output ++ verdictText mode plan.settings.json path verdict
          summary := progress.summary.count verdict.passed
          sources }

/-- Files in order, up to the first one that ends the run. -/
def files (plan : Plan) : List String → Progress → Progress × Option RunError
  | [], progress => (progress, none)
  | path :: rest, progress =>
    match file plan path progress with
    | .error fault => (progress, some fault)
    | .ok progress => files plan rest progress

end Run

/-- How a run ends. -/
structure Outcome where
  status : Nat
  output : String
  errors : List String
  /-- The modules for which the interpreter was started. -/
  started : List String
  deriving DecidableEq, Repr

namespace Run

/-- A run that stops before any file. -/
def stopped (status : Nat) (errors : List String) : Outcome := ⟨status, "", errors, []⟩

def complaint (message : String) : String := s!"globcheck: {message}"

/-- The modules for which the interpreter could be started when it was run. -/
def startedModules (surroundings : Surroundings) (settings : Settings) (sources : List Source) :
    List String :=
  (sources.flatMap Source.runs).filter (surroundings.tools.starts settings.interpreter)

/-- The end of a run after its files. -/
def finish (surroundings : Surroundings) (settings : Settings)
    (result : Progress × Option RunError) : Outcome :=
  let (progress, fault) := result
  let started := startedModules surroundings settings progress.sources
  match fault with
  | some fault => ⟨2, progress.output, [complaint fault.message], started⟩
  | none =>
    let summary :=
      if settings.mode = .check ∧ settings.json = false then progress.summary.text else ""
    ⟨if progress.summary.passed then 0 else 1, progress.output ++ summary, [], started⟩

/-- What a run has to read before its files. -/
def prepare (surroundings : Surroundings) (settings : Settings) :
    Except RunError (Plan × List Source × List String) := do
  let dialect := dialect surroundings settings
  let catalog ← (catalog surroundings settings dialect).mapError .document
  let sources ← (sources surroundings settings).mapError .document
  let paths ← (surroundings.files.select settings.paths).mapError .selection
  return (⟨settings, surroundings.tools, dialect, catalog⟩, sources, paths)

/-- A run with settings. -/
def withSettings (surroundings : Surroundings) (settings : Settings) : Outcome :=
  match prepare surroundings settings with
  | .error fault => stopped 2 [complaint fault.message]
  | .ok (plan, sources, paths) =>
    finish surroundings settings (files plan paths ⟨"", .zero, sources⟩)

/-- A run with options. -/
def withOptions (surroundings : Surroundings) (options : Options) : Outcome :=
  match options.mode with
  | .help => ⟨0, usage, [], []⟩
  | .version => ⟨0, "globcheck 0.1.0\n", [], []⟩
  | _ =>
    match Settings.ofOptions options surroundings.environment with
    | .error fault => stopped 2 [complaint fault.message]
    | .ok settings => withSettings surroundings settings

end Run

/-- A run of the program. -/
def run (surroundings : Surroundings) (arguments : List String) : Outcome :=
  match Options.parse arguments with
  | .error fault =>
    Run.stopped 2 [Run.complaint fault.message, "try 'globcheck --help' for more information"]
  | .ok options => Run.withOptions surroundings options

end GlobalAudit
