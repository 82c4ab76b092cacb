import GlobalAudit.Text.Basic

/-! The command line. Short options may be bundled, options with a value take it from the same
argument or from the next one, and everything behind two dashes is a path. -/
namespace GlobalAudit

/-- What is printed. -/
inductive Mode where
  | check
  | xref
  | dump
  | lines (first last : Nat)
  | help
  | version
  deriving DecidableEq, Repr

/-- The options as given. -/
structure Options where
  mode : Mode
  tolerant : Bool
  resolve : Bool
  whitelists : List String
  modules : List String
  noStandard : Bool
  noInterpreter : Bool
  json : Bool
  dialect : Option String
  compiler : Option String
  interpreter : Option String
  verbosity : Nat
  paths : List String
  deriving DecidableEq, Repr

def Options.initial : Options :=
  ⟨.check, false, false, [], [], false, false, false, none, none, none, 0, []⟩

inductive UsageError where
  | missingValue (option : String)
  | unknownOption (argument : String)
  | badRange (text : String)
  | conflictingModes (first second : String)
  | noInput
  deriving DecidableEq, Repr

def UsageError.message : UsageError → String
  | .missingValue option => s!"option {option} needs a value"
  | .unknownOption argument => s!"unknown option: {argument}"
  | .badRange text => s!"invalid line range '{text}' (expected A-B)"
  | .conflictingModes first second => s!"options {first} and {second} cannot be combined"
  | .noInput => "no input files"

/-- Options without a value. -/
inductive Switch where
  | tolerant
  | resolve
  | noStandard
  | noInterpreter
  | json
  | xref
  | dump
  | verbose
  deriving DecidableEq, Repr

/-- Options with a value. -/
inductive Parameter where
  | whitelist
  | modules
  | dialect
  | compiler
  | interpreter
  | lines
  deriving DecidableEq, Repr

/-- What an option stands for. A page ends the reading of the command line. -/
inductive Meaning where
  | page (mode : Mode)
  | switch (switch : Switch)
  | parameter (parameter : Parameter)
  deriving DecidableEq, Repr

namespace Meaning

def ofLetter? : Char → Option Meaning
  | 'h' => some (.page .help)
  | 'V' => some (.page .version)
  | 't' => some (.switch .tolerant)
  | 'l' => some (.switch .resolve)
  | 'v' => some (.switch .verbose)
  | 'x' => some (.switch .xref)
  | 'd' => some (.switch .dump)
  | 'w' => some (.parameter .whitelist)
  | 'm' => some (.parameter .modules)
  | _ => none

def ofWord? : String → Option Meaning
  | "help" => some (.page .help)
  | "version" => some (.page .version)
  | "tolerant" => some (.switch .tolerant)
  | "resolve-requires" => some (.switch .resolve)
  | "no-stdlib" => some (.switch .noStandard)
  | "no-loader" => some (.switch .noInterpreter)
  | "json" => some (.switch .json)
  | "xref" => some (.switch .xref)
  | "dump" => some (.switch .dump)
  | "whitelist" => some (.parameter .whitelist)
  | "modules" => some (.parameter .modules)
  | "dialect" => some (.parameter .dialect)
  | "luac" => some (.parameter .compiler)
  | "lua" => some (.parameter .interpreter)
  | "lines" => some (.parameter .lines)
  | _ => none

end Meaning

/-- The option that asks for a mode. -/
def Mode.option : Mode → String
  | .xref => "-x"
  | .dump => "-d"
  | .lines _ _ => "--lines"
  | _ => ""

/-- A range of lines: two numbers with a dash between them, or one for a single line. -/
def lineRange? (text : List Char) : Option (Nat × Nat) :=
  let range := match Text.cut? '-' text with
    | some (first, last) => (Text.readIndex (Text.trim first)).bind fun first =>
        (Text.readIndex (Text.trim last)).map fun last => (first, last)
    | none => (Text.readIndex (Text.trim text)).map fun line => (line, line)
  range.filter fun (first, last) => first ≤ last

namespace Options

/-- At most one mode may be asked for. -/
def setMode (mode : Mode) (options : Options) : Except UsageError Options :=
  if options.mode = .check then .ok { options with mode }
  else if options.mode = mode then .ok options
  else .error (.conflictingModes options.mode.option mode.option)

def apply (switch : Switch) (options : Options) : Except UsageError Options :=
  match switch with
  | .tolerant => .ok { options with tolerant := true }
  | .resolve => .ok { options with resolve := true }
  | .noStandard => .ok { options with noStandard := true }
  | .noInterpreter => .ok { options with noInterpreter := true }
  | .json => .ok { options with json := true }
  | .xref => options.setMode .xref
  | .dump => options.setMode .dump
  | .verbose => .ok { options with verbosity := options.verbosity + 1 }

def assign (parameter : Parameter) (value : String) (options : Options) :
    Except UsageError Options :=
  match parameter with
  | .whitelist => .ok { options with whitelists := options.whitelists ++ [value] }
  | .modules => .ok { options with modules := options.modules ++ [value] }
  | .dialect => .ok { options with dialect := some value }
  | .compiler => .ok { options with compiler := some value }
  | .interpreter => .ok { options with interpreter := some value }
  | .lines =>
    match lineRange? value.toList with
    | some (first, last) => options.setMode (.lines first last)
    | none => .error (.badRange value)

/-- How a bundle of short options ends. -/
inductive BundleEnd where
  | done (options : Options)
  /-- A page was asked for. -/
  | stop (options : Options)
  /-- The last option takes its value from the next argument. -/
  | wants (parameter : Parameter) (option : String) (options : Options)

/-- Short options one after the other; one with a value takes the rest of the bundle for it. -/
def bundle (options : Options) : List Char → Except UsageError BundleEnd
  | [] => .ok (.done options)
  | letter :: rest =>
    match Meaning.ofLetter? letter with
    | none => .error (.unknownOption (String.ofList ['-', letter]))
    | some (.page mode) => .ok (.stop { options with mode })
    | some (.switch switch) =>
      match options.apply switch with
      | .error fault => .error fault
      | .ok options => options.bundle rest
    | some (.parameter parameter) =>
      if rest.isEmpty then .ok (.wants parameter (String.ofList ['-', letter]) options)
      else (options.assign parameter (String.ofList rest)).map .done

/-- How an argument is to be read. -/
inductive Argument where
  | endOfOptions
  | path
  | word (name : String) (value : Option String)
  | letters (letters : List Char)

def Argument.of (argument : String) : Argument :=
  match argument.toList with
  | ['-', '-'] => .endOfOptions
  | '-' :: '-' :: long =>
    match Text.cut? '=' long with
    | some (name, value) => .word (String.ofList name) (some (String.ofList value))
    | none => .word (String.ofList long) none
  | '-' :: letter :: rest => .letters (letter :: rest)
  | _ => .path

/-- Options are complete when there is something to audit. -/
def finish (options : Options) : Except UsageError Options :=
  if options.paths.isEmpty then .error .noInput else .ok options

def parseFrom (options : Options) : List String → Except UsageError Options
  | [] => options.finish
  | argument :: rest =>
    match Argument.of argument with
    | .endOfOptions => finish { options with paths := options.paths ++ rest }
    | .path => parseFrom { options with paths := options.paths ++ [argument] } rest
    | .word name attached =>
      match Meaning.ofWord? name with
      | none => .error (.unknownOption argument)
      | some (.page mode) => .ok { options with mode }
      | some (.switch switch) =>
        match options.apply switch with
        | .error fault => .error fault
        | .ok options => parseFrom options rest
      | some (.parameter parameter) =>
        match attached with
        | some value =>
          match options.assign parameter value with
          | .error fault => .error fault
          | .ok options => parseFrom options rest
        | none =>
          match rest with
          | [] => .error (.missingValue ("--" ++ name))
          | value :: later =>
            match options.assign parameter value with
            | .error fault => .error fault
            | .ok options => parseFrom options later
    | .letters letters =>
      match options.bundle letters with
      | .error fault => .error fault
      | .ok (.stop options) => .ok options
      | .ok (.done options) => parseFrom options rest
      | .ok (.wants parameter option options) =>
        match rest with
        | [] => .error (.missingValue option)
        | value :: later =>
          match options.assign parameter value with
          | .error fault => .error fault
          | .ok options => parseFrom options later

/-- The options of a command line. -/
def parse (arguments : List String) : Except UsageError Options := Options.initial.parseFrom arguments

end Options

/-- The help page. -/
def usage : String :=
  "usage: globcheck [options] [--] file|dir|pattern...\n" ++
  "\n" ++
  "Checks Lua sources for undefined and redefined globals, using the\n" ++
  "bytecode listing produced by luac.\n" ++
  "\n" ++
  "options:\n" ++
  "  -t, --tolerant           report nothing about undefined or redefined\n" ++
  "                           globals (needs -l)\n" ++
  "  -l, --resolve-requires   resolve required modules to their exports\n" ++
  "  -w, --whitelist FILE     extra whitelisted names (.json or text), repeatable\n" ++
  "  -m, --modules FILE       pre-loaded module exports (.json or text), repeatable\n" ++
  "      --no-stdlib          do not whitelist the Lua standard library\n" ++
  "      --no-loader          never run lua to load required modules\n" ++
  "  -x, --xref               print a cross-reference of global names\n" ++
  "  -d, --dump               print the facts extracted from each file\n" ++
  "      --lines A-B          print decoded instructions for source lines A to B\n" ++
  "      --json               print one JSON object per file\n" ++
  "      --dialect 5.1|5.2    bytecode dialect (default: detected from luac -v)\n" ++
  "      --luac PATH          luac executable (env GLOBCHECK_LUAC)\n" ++
  "      --lua PATH           lua executable (env GLOBCHECK_LUA)\n" ++
  "  -v                       more logging, repeatable (env GLOBCHECK_LOG)\n" ++
  "  -h, --help               show this help\n" ++
  "  -V, --version            show the version\n" ++
  "\n" ++
  "exit status: 0 all files passed, 1 a file failed, 2 usage or listing error\n"

end GlobalAudit
