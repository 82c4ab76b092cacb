import GlobalAudit.Text.Basic

/-! The remarks behind an instruction. The listing explains constants and upvalues in a comment made
of bare words and of string constants in double quotes, with the escapes of Lua. A single left to
right scan takes the comment apart. -/
namespace GlobalAudit

inductive Remark where
  /-- A string constant, without quotes and escapes. -/
  | text (value : String)
  | word (value : String)
  deriving DecidableEq, Repr

namespace Remark

/-- What the characters read so far have left open. -/
inductive Scan where
  | gap
  | word (value : String)
  | quoted (value : String)
  | escape (value : String)
  /-- A decimal escape with its value so far and the number of digits it may still take. -/
  | decimal (value : String) (code room : Nat)

/-- The remarks read so far, and what is open behind them. -/
structure State where
  done : List Remark
  scan : Scan

/-- The character that a backslash and a letter stand for. -/
def meaning (c : Char) : Char :=
  if c = 'n' then '\n'
  else if c = 't' then '\t'
  else if c = 'r' then '\r'
  else if c = 'a' then '\x07'
  else if c = 'b' then '\x08'
  else if c = 'f' then '\x0c'
  else if c = 'v' then '\x0b'
  else c

/-- A character where no word and no string is open. -/
def stepGap (c : Char) : Scan :=
  if Text.isBlank c then .gap
  else if c = '"' then .quoted ""
  else .word (String.singleton c)

/-- A character inside a string. -/
def stepQuoted (done : List Remark) (value : String) (c : Char) : State :=
  if c = '"' then ⟨done ++ [.text value], .gap⟩
  else if c = '\\' then ⟨done, .escape value⟩
  else ⟨done, .quoted (value.push c)⟩

def digit (c : Char) : Nat := c.toNat - '0'.toNat

def step (state : State) (c : Char) : State :=
  match state.scan with
  | .gap => ⟨state.done, stepGap c⟩
  | .word value =>
    if Text.isBlank c then ⟨state.done ++ [.word value], .gap⟩
    else ⟨state.done, .word (value.push c)⟩
  | .quoted value => stepQuoted state.done value c
  | .escape value =>
    if c.isDigit then ⟨state.done, .decimal value (digit c) 2⟩
    else ⟨state.done, .quoted (value.push (meaning c))⟩
  | .decimal value code room =>
    if room ≠ 0 ∧ c.isDigit then ⟨state.done, .decimal value (10 * code + digit c) (room - 1)⟩
    else stepQuoted state.done (value.push (Char.ofNat code)) c

/-- The remarks at the end of the comment; a string that is still open ends here. -/
def finish (state : State) : List Remark :=
  match state.scan with
  | .gap => state.done
  | .word value => state.done ++ [.word value]
  | .quoted value => state.done ++ [.text value]
  | .escape value => state.done ++ [.text value]
  | .decimal value code _ => state.done ++ [.text (value.push (Char.ofNat code))]

/-- The remarks in a comment. -/
def ofComment (comment : List Char) : List Remark := finish (comment.foldl step ⟨[], .gap⟩)

end Remark

end GlobalAudit
