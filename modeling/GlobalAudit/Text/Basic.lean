/-! Text as a list of characters: blanks and the words between them, pieces between single characters,
decimal numerals with a bound, and text in columns. -/
namespace GlobalAudit.Text

/-! ## Blanks

A character is blank when it has the Unicode property White_Space; trimming and word splitting go by
this property alone. -/

/-- The twenty-five code points of the Unicode property White_Space. -/
def isBlank (c : Char) : Bool :=
  let code := c.toNat
  (0x09 ≤ code && code ≤ 0x0D) || code == 0x20 || code == 0x85 || code == 0xA0 ||
  code == 0x1680 || (0x2000 ≤ code && code ≤ 0x200A) || code == 0x2028 || code == 0x2029 ||
  code == 0x202F || code == 0x205F || code == 0x3000

def trimStart (text : List Char) : List Char := text.dropWhile isBlank

def trimEnd (text : List Char) : List Char := (text.reverse.dropWhile isBlank).reverse

def trim (text : List Char) : List Char := trimEnd (trimStart text)

/-- The nonempty runs of characters that are not blank. -/
def words (text : List Char) : List (List Char) :=
  (text.splitOnP isBlank).filter fun word => !word.isEmpty

/-- A string without the blanks at its two ends. -/
def trimmed (text : String) : String := String.ofList (trim text.toList)

/-! ## Pieces

Cutting at single characters: at the first one, at the last one, and into lines. -/

/-- The text before and after the first `mark`. -/
def cut? (mark : Char) : List Char → Option (List Char × List Char)
  | [] => none
  | c :: rest =>
    if c = mark then some ([], rest)
    else (cut? mark rest).map fun (before, after) => (c :: before, after)

/-- The text before and after the last `mark`. -/
def cutLast? (mark : Char) (text : List Char) : Option (List Char × List Char) :=
  (cut? mark text.reverse).map fun (after, before) => (before.reverse, after.reverse)

/-- What follows `start`, when the text begins with it. -/
def after? (start : String) (text : List Char) : Option (List Char) :=
  start.toList.isPrefixOf? text

/-- Whether the text holds `part` somewhere. -/
def occursIn (part : List Char) : List Char → Bool
  | [] => part.isEmpty
  | c :: rest => part.isPrefixOf (c :: rest) || occursIn part rest

/-- One carriage return at the end is dropped. -/
def dropReturn (line : List Char) : List Char :=
  if line.getLast? = some '\r' then line.dropLast else line

/-- The pieces between line feeds as lines: a piece that a line feed ends loses one carriage
return before it, and nothing after the last line feed is no line. -/
def linesOfPieces : List (List Char) → List (List Char)
  | [] => []
  | [last] => if last.isEmpty then [] else [last]
  | piece :: rest => dropReturn piece :: linesOfPieces rest

def lines (text : List Char) : List (List Char) := linesOfPieces (text.splitOn '\n')

theorem cut?_eq_some {mark : Char} {text before after : List Char}
    (h : cut? mark text = some (before, after)) :
    text = before ++ mark :: after ∧ mark ∉ before := by
  induction text generalizing before with
  | nil => simp [cut?] at h
  | cons c rest ih =>
    rw [cut?] at h
    split at h
    · simp only [Option.some.injEq, Prod.mk.injEq] at h
      obtain ⟨rfl, rfl⟩ := h
      simp [*]
    · rename_i differs
      obtain ⟨⟨early, late⟩, found, same⟩ := Option.map_eq_some_iff.1 h
      simp only [Prod.mk.injEq] at same
      obtain ⟨rfl, rfl⟩ := same
      obtain ⟨rfl, absent⟩ := ih found
      simp [absent, Ne.symm differs]

theorem cut?_eq_none_iff {mark : Char} {text : List Char} :
    cut? mark text = none ↔ mark ∉ text := by
  induction text with
  | nil => simp [cut?]
  | cons c rest ih =>
    by_cases same : c = mark
    · simp [cut?, same]
    · simp [cut?, same, ih, Ne.symm same]

/-! ## Numerals

A numeral is one optional sign and at least one ASCII digit; leading zeros count for nothing and a value
outside the range is no numeral. -/

/-- The value of a nonempty run of digits. -/
def digitsValue? (digits : List Char) : Option Nat :=
  if !digits.isEmpty && digits.all Char.isDigit then some (Nat.ofDigitChars 10 digits 0) else none

/-- An unsigned numeral below `bound`, with or without a plus sign. -/
def readBelow (bound : Nat) (text : List Char) : Option Nat :=
  let digits := match text with
    | '+' :: rest => rest
    | _ => text
  (digitsValue? digits).filter (· < bound)

/-- An unsigned numeral of thirty-two bits. -/
def readIndex (text : List Char) : Option Nat := readBelow UInt32.size text

/-- An unsigned numeral of sixty-four bits. -/
def readCount (text : List Char) : Option Nat := readBelow UInt64.size text

/-- A signed numeral in two's complement range of thirty-two bits. -/
def readOperand (text : List Char) : Option Int :=
  match text with
  | '-' :: rest => ((digitsValue? rest).filter (· ≤ UInt32.size / 2)).map fun size => -(size : Int)
  | _ => (readBelow (UInt32.size / 2) text).map fun size => (size : Int)

/-! ## Columns

Widths count characters. -/

/-- Blanks behind the text up to a width. -/
def padEnd (width : Nat) (text : String) : String :=
  text ++ String.ofList (List.replicate (width - text.length) ' ')

/-- Blanks before the text up to a width. -/
def padStart (width : Nat) (text : String) : String :=
  String.ofList (List.replicate (width - text.length) ' ') ++ text

/-- Lines, each ended by a line feed. -/
def unlines (lines : List String) : String := String.join (lines.map fun line => line ++ "\n")

end GlobalAudit.Text
