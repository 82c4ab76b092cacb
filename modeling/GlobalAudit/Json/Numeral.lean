/-! JSON numerals: their grammar, and the range of those that a binary double can approximate. -/
namespace GlobalAudit.Json

/-- A numeral taken apart: the digits before and after the point, and the exponent. -/
structure Numeral where
  whole : List Char
  fraction : List Char
  exponent : Int

namespace Numeral

/-- The exponent part of a numeral, from its letter to the end of the text. -/
def exponent? : List Char → Option Int
  | [] => some 0
  | mark :: rest =>
    if mark = 'e' ∨ mark = 'E' then
      let (negative, digits) := match rest with
        | '+' :: digits => (false, digits)
        | '-' :: digits => (true, digits)
        | digits => (false, digits)
      if !digits.isEmpty && digits.all Char.isDigit then
        let size : Int := Nat.ofDigitChars 10 digits 0
        some (if negative then -size else size)
      else none
    else none

/-- A numeral is an optional minus sign, digits without a superfluous leading zero, optionally a
point with digits, and optionally an exponent. -/
def parse? (text : List Char) : Option Numeral :=
  let unsigned := match text with
    | '-' :: rest => rest
    | _ => text
  let whole := unsigned.takeWhile Char.isDigit
  let rest := unsigned.dropWhile Char.isDigit
  if whole.isEmpty || (whole.head? == some '0' && whole.length != 1) then none
  else match rest with
    | '.' :: behind =>
      let fraction := behind.takeWhile Char.isDigit
      if fraction.isEmpty then none
      else (exponent? (behind.dropWhile Char.isDigit)).map fun exponent => ⟨whole, fraction, exponent⟩
    | _ => (exponent? rest).map fun exponent => ⟨whole, [], exponent⟩

/-- Digits read into a significand for as long as it fits sixty-four bits, and the number of
digits left over. -/
def fill (significand : Nat) : List Char → Nat × Nat
  | [] => (significand, 0)
  | digit :: rest =>
    let longer := 10 * significand + (digit.toNat - '0'.toNat)
    if longer < 2 ^ 64 then fill longer rest else (significand, rest.length + 1)

/-- A numeral is in range when its significand, rounded to a double, times the double nearest to
the power of ten is finite. Digits beyond the significand only shift the power. -/
def inRange (numeral : Numeral) : Bool :=
  let (whole, skipped) := fill 0 numeral.whole
  let (significand, dropped) := fill whole numeral.fraction
  let power := (skipped : Int) - (numeral.fraction.length - dropped : Nat) + numeral.exponent
  if power < 0 || significand == 0 then true
  else if 308 < power then false
  else !(significand.toUInt64.toFloat * Float.ofScientific 1 false power.toNat).isInf

end Numeral

end GlobalAudit.Json
