/-
# Decimal numerals

Integers of any size are written in decimal with a leading minus sign when they
are negative, and read back from an optional sign and a non-empty run of digits.
No grouping, no blanks and no other bases are accepted.
-/

import Juxta.Text.Bytes

namespace Juxta.Numeral

/-- The decimal digits of a natural number, without leading zeros. -/
def ofNat (number : Nat) : Bytes := (Nat.toDigits 10 number).map Char.toUInt8

/-- The decimal numeral of an integer. -/
def ofInt : Int → Bytes
  | .ofNat number => ofNat number
  | .negSucc number => Ascii.minus :: ofNat (number + 1)

/-- The number spelled by a run of digits, most significant first. -/
def digitsValue (digits : Bytes) : Nat :=
  digits.foldl (fun value digit => 10 * value + Ascii.digitValue digit) 0

/-- Reads a non-empty run of digits. -/
def readNat? (text : Bytes) : Option Nat :=
  if !text.isEmpty && text.all Ascii.isDigit then some (digitsValue text) else none

/-- Reads an optional sign followed by a non-empty run of digits. -/
def readInt? : Bytes → Option Int
  | [] => none
  | byte :: rest =>
      if byte = Ascii.minus then (readNat? rest).map fun number => -(number : Int)
      else if byte = Ascii.plus then (readNat? rest).map Int.ofNat
      else (readNat? (byte :: rest)).map Int.ofNat

end Juxta.Numeral
