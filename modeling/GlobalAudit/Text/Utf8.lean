/-! Reading bytes as UTF-8. One scan cuts the bytes into characters and invalid parts, an invalid
part being as long as it could still begin a character. Strict reading refuses invalid parts,
lenient reading puts the replacement character in the place of each. -/
namespace GlobalAudit.Text.Utf8

/-- A character of which some bytes are read: how many are owed, the range of the next, and the
bits so far. -/
structure Pending where
  owed : Nat
  low : Nat
  high : Nat
  code : Nat

/-- What a first byte above the ASCII range promises. -/
def lead (byte : Nat) : Option Pending :=
  if 0xC2 ≤ byte ∧ byte ≤ 0xDF then some ⟨1, 0x80, 0xBF, byte - 0xC0⟩
  else if byte = 0xE0 then some ⟨2, 0xA0, 0xBF, 0⟩
  else if byte = 0xED then some ⟨2, 0x80, 0x9F, 0xD⟩
  else if 0xE1 ≤ byte ∧ byte ≤ 0xEF then some ⟨2, 0x80, 0xBF, byte - 0xE0⟩
  else if byte = 0xF0 then some ⟨3, 0x90, 0xBF, 0⟩
  else if 0xF1 ≤ byte ∧ byte ≤ 0xF3 then some ⟨3, 0x80, 0xBF, byte - 0xF0⟩
  else if byte = 0xF4 then some ⟨3, 0x80, 0x8F, 4⟩
  else none

/-- A byte where a character may begin: what it completes, and what it leaves pending. -/
def first (byte : Nat) : List (Option Char) × Option Pending :=
  if byte < 0x80 then ([some (Char.ofNat byte)], none)
  else match lead byte with
    | some pending => ([], some pending)
    | none => ([none], none)

/-- A byte after the pending ones; one that does not fit ends an invalid part and begins anew. -/
def next (pending : Pending) (byte : Nat) : List (Option Char) × Option Pending :=
  if pending.low ≤ byte ∧ byte ≤ pending.high then
    let code := 64 * pending.code + (byte - 0x80)
    if pending.owed ≤ 1 then ([some (Char.ofNat code)], none)
    else ([], some ⟨pending.owed - 1, 0x80, 0xBF, code⟩)
  else
    let (parts, state) := first byte
    (none :: parts, state)

/-- The characters of the bytes in order, with `none` for each invalid part. -/
def parts : Option Pending → List UInt8 → List (Option Char)
  | none, [] => []
  | some _, [] => [none]
  | none, byte :: rest =>
    let (done, state) := first byte.toNat
    done ++ parts state rest
  | some pending, byte :: rest =>
    let (done, state) := next pending byte.toNat
    done ++ parts state rest

/-- The text of bytes that are UTF-8 throughout. -/
def decode? (bytes : List UInt8) : Option String :=
  ((parts none bytes).mapM id).map String.ofList

/-- The text of any bytes, each invalid part read as U+FFFD. -/
def decodeLossy (bytes : List UInt8) : String :=
  String.ofList ((parts none bytes).map (·.getD (Char.ofNat 0xFFFD)))

end GlobalAudit.Text.Utf8
