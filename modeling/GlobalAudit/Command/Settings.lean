import GlobalAudit.Audit.Scope
import GlobalAudit.Bytecode.Dialect
import GlobalAudit.Command.Options

/-! The settings of a run: options first, then the environment, then defaults. -/
namespace GlobalAudit

inductive LogLevel where
  | error
  | warn
  | info
  | debug
  | trace
  deriving DecidableEq, Repr

namespace LogLevel

def name : LogLevel → String
  | .error => "ERROR"
  | .warn => "WARN"
  | .info => "INFO"
  | .debug => "DEBUG"
  | .trace => "TRACE"

def all : List LogLevel := [.error, .warn, .info, .debug, .trace]

/-- A level by its name in any case of letters, or by its number counted from one. -/
def parse? (text : List Char) : Option LogLevel :=
  match Text.readCount text with
  | some 0 => none
  | some (number + 1) => all[number]?
  | none => all.find? fun level => level.name.toList == text.map Char.toUpper

/-- The level that repeated asking for more leads to. -/
def ofVerbosity : Nat → LogLevel
  | 0 => .warn
  | 1 => .info
  | 2 => .debug
  | _ => .trace

end LogLevel

structure Settings where
  mode : Mode
  policy : Policy
  whitelists : List String
  modules : List String
  /-- The globals of the dialect are allowed. -/
  standard : Bool
  /-- An interpreter is asked about modules that are not declared. -/
  interpreted : Bool
  json : Bool
  /-- None if the compiler has to be asked. -/
  dialect : Option Dialect
  compiler : String
  interpreter : String
  log : LogLevel
  paths : List String
  deriving DecidableEq, Repr

inductive SettingsError where
  | badDialect (text : String)
  | badLogLevel (text : String)
  | policy (fault : PolicyError)
  deriving DecidableEq, Repr

def SettingsError.message : SettingsError → String
  | .badDialect text => s!"unknown dialect '{text}' (expected 5.1 or 5.2)"
  | .badLogLevel text => s!"unknown log level '{text}' in GLOBCHECK_LOG"
  | .policy fault => fault.message

namespace Settings

/-- A dialect by its version number, with or without the name of the language before it. -/
def dialect? (text : String) : Option Dialect :=
  let inner := Text.trim text.toList
  let version := match (Text.after? "lua" inner).or (Text.after? "Lua" inner) with
    | some rest => Text.trim rest
    | none => inner
  if version == "5.1".toList || version == "51".toList then some .lua51
  else if version == "5.2".toList || version == "52".toList then some .lua52
  else none

def chosenDialect (options : Options) (environment : String → Option String) :
    Except SettingsError (Option Dialect) :=
  match options.dialect.or (environment "GLOBCHECK_DIALECT") with
  | none => .ok none
  | some text =>
    match dialect? text with
    | some dialect => .ok (some dialect)
    | none => .error (.badDialect text)

/-- Options decide about the log level before the environment does. -/
def chosenLog (options : Options) (environment : String → Option String) :
    Except SettingsError LogLevel :=
  if options.verbosity ≠ 0 then .ok (.ofVerbosity options.verbosity)
  else match environment "GLOBCHECK_LOG" with
    | none => .ok .warn
    | some text =>
      match LogLevel.parse? (Text.trim text.toList) with
      | some level => .ok level
      | none => .error (.badLogLevel text)

/-- The settings of options in an environment. -/
def ofOptions (options : Options) (environment : String → Option String) :
    Except SettingsError Settings := do
  let policy ← (Policy.validate ⟨options.tolerant, options.resolve⟩).mapError .policy
  let dialect ← chosenDialect options environment
  let log ← chosenLog options environment
  return {
    mode := options.mode
    policy
    whitelists := options.whitelists
    modules := options.modules
    standard := !options.noStandard
    interpreted := !options.noInterpreter
    json := options.json
    dialect
    compiler := (options.compiler.or (environment "GLOBCHECK_LUAC")).getD "luac"
    interpreter := (options.interpreter.or (environment "GLOBCHECK_LUA")).getD "lua"
    log
    paths := options.paths }

end Settings

end GlobalAudit
