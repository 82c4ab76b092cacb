import GlobalAudit.Command.Run

/-! The command line over listings that are written already. Each file that is named holds the
listing of a source, so the compiler has nothing left to do; no interpreter is started. -/
namespace GlobalAudit.Main

/-- The bytes of a file that can be read. -/
def readFile? (path : String) : IO (Option (List UInt8)) := do
  try
    let content ← IO.FS.readBinFile path
    return some content.toList
  catch _ => return none

/-- The files that a command line names, as far as they can be read. -/
def readFiles (paths : List String) : IO FileSystem := do
  let working := (← IO.getEnv "PWD").getD "/"
  paths.foldlM (fun files path => do
    match ← readFile? path with
    | some content => return files.insert path (.file content)
    | none => return files) (.empty (Path.pieces working))

/-- The paths that a command line names. -/
def namedPaths (arguments : List String) : List String :=
  match Options.parse arguments with
  | .ok options => options.whitelists ++ options.modules ++ options.paths
  | .error _ => []

/-- The values of the variables that a run asks for. -/
def readEnvironment (names : List String) : IO (Fields String) :=
  names.foldlM (fun entries name => do
    match ← IO.getEnv name with
    | some value => return Fields.put name value entries
    | none => return entries) []

/-- Tools that give back listings as they are found. -/
def tools (files : FileSystem) : Tools where
  version := fun _ => .error ReadError.missing.message
  listing := fun _ path =>
    match files.read path with
    | .ok content => .ok ⟨0, content, []⟩
    | .error reason => .error reason.message
  probe := fun _ _ => .error ReadError.missing.message

end GlobalAudit.Main

open GlobalAudit in
def main (arguments : List String) : IO UInt32 := do
  let files ← Main.readFiles (Main.namedPaths arguments)
  let entries ← Main.readEnvironment
    ["GLOBCHECK_DIALECT", "GLOBCHECK_LOG", "GLOBCHECK_LUAC", "GLOBCHECK_LUA"]
  let outcome := run ⟨files, fun name => Fields.get? name entries, Main.tools files⟩ arguments
  IO.print outcome.output
  outcome.errors.forM IO.eprintln
  return outcome.status.toUInt32
