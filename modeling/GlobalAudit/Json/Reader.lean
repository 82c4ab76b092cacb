import GlobalAudit.Json.Basic
import GlobalAudit.Json.Numeral

/-! Reading JSON text. A first pass cuts the text into tokens, a second one folds the tokens into a
value with a stack of the arrays and objects that are open. Text that is not JSON, that nests
deeper than `depthLimit` or that has a numeral out of range is refused. What is read has its members
in order. -/
namespace GlobalAudit.Json

inductive Token where
  | openArray
  | closeArray
  | openObject
  | closeObject
  | comma
  | colon
  | string (text : String)
  | literal (value : Json)

/-- What the text read so far has left open. -/
inductive Scan where
  | gap
  | word (text : String)
  | quoted (text : String)
  | escape (text : String)
  | hex (text : String) (half : Option Nat) (owed code : Nat)
  | half (text : String) (half : Nat)
  | halfEscape (text : String) (half : Nat)

/-- Tokens read so far, the last one first, and what is open behind them. -/
structure Lexer where
  tokens : List Token
  scan : Scan

def isGap (c : Char) : Bool := c == ' ' || c == '\t' || c == '\n' || c == '\r'

def punctuation? : Char → Option Token
  | '[' => some .openArray
  | ']' => some .closeArray
  | '\x7b' => some .openObject
  | '\x7d' => some .closeObject
  | ',' => some .comma
  | ':' => some .colon
  | _ => none

def hexDigit? (c : Char) : Option Nat :=
  if '0' ≤ c ∧ c ≤ '9' then some (c.toNat - '0'.toNat)
  else if 'a' ≤ c ∧ c ≤ 'f' then some (c.toNat - 'a'.toNat + 10)
  else if 'A' ≤ c ∧ c ≤ 'F' then some (c.toNat - 'A'.toNat + 10)
  else none

/-- The character that a backslash and a letter stand for. -/
def escape? : Char → Option Char
  | '"' => some '"'
  | '\\' => some '\\'
  | '/' => some '/'
  | 'b' => some '\x08'
  | 'f' => some '\x0c'
  | 'n' => some '\n'
  | 'r' => some '\r'
  | 't' => some '\t'
  | _ => none

/-- The value of a bare word. -/
def word? (text : String) : Option Json :=
  if text = "null" then some .null
  else if text = "true" then some (.bool true)
  else if text = "false" then some (.bool false)
  else match Numeral.parse? text.toList with
    | some numeral => if numeral.inRange then some (.number text) else none
    | none => none

/-- The scan after four hexadecimal digits: the first half of a surrogate pair waits for the
second, and no half stands alone. -/
def closeHex (text : String) (half : Option Nat) (code : Nat) : Option Scan :=
  let isHigh := 0xD800 ≤ code ∧ code ≤ 0xDBFF
  let isLow := 0xDC00 ≤ code ∧ code ≤ 0xDFFF
  match half with
  | some high =>
    if isLow then
      some (.quoted (text.push (Char.ofNat (0x10000 + 1024 * (high - 0xD800) + (code - 0xDC00)))))
    else none
  | none =>
    if isHigh then some (.half text code)
    else if isLow then none
    else some (.quoted (text.push (Char.ofNat code)))

/-- A character outside strings and words. -/
def stepGap (tokens : List Token) (c : Char) : Lexer :=
  if isGap c then ⟨tokens, .gap⟩
  else if c = '"' then ⟨tokens, .quoted ""⟩
  else match punctuation? c with
    | some token => ⟨token :: tokens, .gap⟩
    | none => ⟨tokens, .word (String.singleton c)⟩

def Lexer.step (lexer : Lexer) (c : Char) : Option Lexer :=
  let tokens := lexer.tokens
  match lexer.scan with
  | .gap => some (stepGap tokens c)
  | .word text =>
    if isGap c || c == '"' || (punctuation? c).isSome then
      (word? text).map fun value => stepGap (.literal value :: tokens) c
    else some ⟨tokens, .word (text.push c)⟩
  | .quoted text =>
    if c = '"' then some ⟨.string text :: tokens, .gap⟩
    else if c = '\\' then some ⟨tokens, .escape text⟩
    else if c.toNat < 0x20 then none
    else some ⟨tokens, .quoted (text.push c)⟩
  | .escape text =>
    if c = 'u' then some ⟨tokens, .hex text none 4 0⟩
    else (escape? c).map fun meant => ⟨tokens, .quoted (text.push meant)⟩
  | .hex text half owed code =>
    match hexDigit? c with
    | none => none
    | some digit =>
      if owed ≤ 1 then (closeHex text half (16 * code + digit)).map fun scan => ⟨tokens, scan⟩
      else some ⟨tokens, .hex text half (owed - 1) (16 * code + digit)⟩
  | .half text half => if c = '\\' then some ⟨tokens, .halfEscape text half⟩ else none
  | .halfEscape text half => if c = 'u' then some ⟨tokens, .hex text (some half) 4 0⟩ else none

/-- The tokens at the end of the text, in order. -/
def Lexer.finish (lexer : Lexer) : Option (List Token) :=
  match lexer.scan with
  | .gap => some lexer.tokens.reverse
  | .word text => (word? text).map fun value => (.literal value :: lexer.tokens).reverse
  | _ => none

def tokens? (text : List Char) : Option (List Token) :=
  (text.foldlM Lexer.step ⟨[], .gap⟩).bind Lexer.finish

/-- An array or object that is still open, its finished parts last first. -/
inductive Frame where
  | array (items : List Json)
  | object (members : List (String × Json)) (name : String)

/-- What may come next. -/
inductive Expected where
  | value
  | valueOrClose
  | nameOrClose
  | name
  | colon (name : String)
  | separator
  | nothing (result : Json)

structure Builder where
  frames : List Frame
  expected : Expected

/-- Arrays and objects nest to this depth at most. -/
def depthLimit : Nat := 127

/-- A finished value goes into the innermost open frame. -/
def deliver (value : Json) : List Frame → Builder
  | [] => ⟨[], .nothing value⟩
  | .array items :: outer => ⟨.array (value :: items) :: outer, .separator⟩
  | .object members name :: outer => ⟨.object ((name, value) :: members) "" :: outer, .separator⟩

def enter (frames : List Frame) (frame : Frame) (expected : Expected) : Option Builder :=
  if frames.length < depthLimit then some ⟨frame :: frames, expected⟩ else none

def beginValue (frames : List Frame) : Token → Option Builder
  | .literal value => some (deliver value frames)
  | .string text => some (deliver (.string text) frames)
  | .openArray => enter frames (.array []) .valueOrClose
  | .openObject => enter frames (.object [] "") .nameOrClose
  | _ => none

def Builder.step (builder : Builder) (token : Token) : Option Builder :=
  let frames := builder.frames
  match builder.expected, token, frames with
  | .valueOrClose, .closeArray, _ :: outer => some (deliver (.array []) outer)
  | .value, _, _ => beginValue frames token
  | .valueOrClose, _, _ => beginValue frames token
  | .nameOrClose, .closeObject, _ :: outer => some (deliver (.object []) outer)
  | .nameOrClose, .string text, _ => some ⟨frames, .colon text⟩
  | .name, .string text, _ => some ⟨frames, .colon text⟩
  | .colon name, .colon, .object members _ :: outer => some ⟨.object members name :: outer, .value⟩
  | .separator, .comma, .array _ :: _ => some ⟨frames, .value⟩
  | .separator, .comma, .object _ _ :: _ => some ⟨frames, .name⟩
  | .separator, .closeArray, .array items :: outer => some (deliver (.array items.reverse) outer)
  | .separator, .closeObject, .object members _ :: outer =>
    some (deliver (.object members.reverse) outer)
  | _, _, _ => none

def Builder.finish (builder : Builder) : Option Json :=
  match builder.expected with
  | .nothing result => some result
  | _ => none

/-- The value of a JSON text as it is written. -/
def parse? (text : List Char) : Option Json := do
  let tokens ← tokens? text
  let builder ← tokens.foldlM Builder.step ⟨[], .value⟩
  builder.finish

/-- The value of a JSON text, of members with one name the last, and names ascending. -/
def read? (text : String) : Option Json := (parse? text.toList).map ordered

end GlobalAudit.Json
