import GlobalAudit.Bytecode.Dialect
import GlobalAudit.Module.Probe
import GlobalAudit.Text.Utf8

/-! The two programs that an audit runs: the compiler of Lua, for listings and for its version, and
the interpreter, for the exports of modules. What a program does is given as a function from its
arguments to what it leaves behind. -/
namespace GlobalAudit

/-- What a finished program leaves behind. -/
structure ToolOutput where
  status : Nat
  stdout : List UInt8
  stderr : List UInt8

/-- The output of a program, or the reason why it could not be started. -/
abbrev ToolResult := Except String ToolOutput

/-- The programs that can be run, by the name they are called by. -/
structure Tools where
  /-- Asks a compiler for its version. -/
  version : String → ToolResult
  /-- Asks a compiler for the listing of a file. -/
  listing : String → String → ToolResult
  /-- Asks an interpreter about a module. -/
  probe : String → String → ToolResult

inductive ToolError where
  | launch (tool reason : String)
  | failed (tool : String) (status : Nat) (text : String)
  | noOutput (tool : String)
  deriving DecidableEq, Repr

def ToolError.message : ToolError → String
  | .launch tool reason => s!"cannot run {tool}: {reason}"
  | .failed tool status text => s!"{tool} failed (exit status: {status}): {text}"
  | .noOutput tool => s!"{tool} produced no output"

/-- Whether a text is nothing but blanks. -/
def isBlankText (text : String) : Bool := text.toList.all Text.isBlank

namespace Tools

/-- The listing of a file. -/
def disassemble (tools : Tools) (tool path : String) : Except ToolError String :=
  match tools.listing tool path with
  | .error reason => .error (.launch tool reason)
  | .ok output =>
    if output.status ≠ 0 then
      .error (.failed tool output.status (Text.trimmed (Text.Utf8.decodeLossy output.stderr)))
    else
      let text := Text.Utf8.decodeLossy output.stdout
      if isBlankText text then .error (.noOutput tool) else .ok text

/-- The dialect of a compiler by its banner, none for a version that is not known. Some print the
banner as an error. -/
def detect (tools : Tools) (tool : String) : Except ToolError (Option Dialect) :=
  match tools.version tool with
  | .error reason => .error (.launch tool reason)
  | .ok output =>
    match [output.stdout, output.stderr].map Text.Utf8.decodeLossy |>.find? (!isBlankText ·) with
    | some banner => .ok (Dialect.ofVersion? banner)
    | none => .error (.noOutput tool)

/-- What an interpreter says about a module. -/
def ask (tools : Tools) (tool name : String) : LoadAnswer :=
  match tools.probe tool name with
  | .error reason => .error (.failed name (ToolError.launch tool reason).message)
  | .ok output =>
    if output.status ≠ 0 then
      .error (.failed name (Text.trimmed (Text.Utf8.decodeLossy output.stderr)))
    else Probe.decode name (Text.Utf8.decodeLossy output.stdout)

/-- Whether an interpreter can be started for a module. -/
def starts (tools : Tools) (tool name : String) : Bool := (tools.probe tool name).toOption.isSome

end Tools

end GlobalAudit
