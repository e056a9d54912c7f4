/-
# Exact fractions

A number of the language is a pair of integers of any size. The pair is kept
exactly as it was computed or handed in: the denominator may be zero or
negative, and a fraction need not be in lowest terms. Printing shows the pair,
so `2 / 4` and `1 / 2` look different although they compare as equal.
-/

import Juxta.Text.Numeral
import Juxta.Text.Quoted

namespace Juxta

/-- A numerator and a denominator, with no condition on either. -/
structure Fraction where
  num : Int
  den : Int
  deriving DecidableEq, Repr

namespace Fraction

/-- The pair of zeros, which stands for a number that was never given. -/
instance : Inhabited Fraction := ⟨⟨0, 0⟩⟩

/-- The value of the literal `@`. -/
def infinity : Fraction := ⟨1, 0⟩

/-- Both integers divided by their greatest common divisor. Signs stay where
they are, and the pair of zeros is left alone. -/
def simplify (num den : Int) : Int × Int :=
  let divisor : Int := max 1 (Int.gcd num den)
  (num / divisor, den / divisor)

/-- The fraction of two integers in lowest terms. -/
def reduced (num den : Int) : Fraction :=
  ⟨(simplify num den).1, (simplify num den).2⟩

/-- A whole number. -/
def ofInt (value : Int) : Fraction := ⟨value, 1⟩

/-- Truth values are the numbers one and zero. -/
def ofBool (value : Bool) : Fraction := ofInt (if value then 1 else 0)

/-- A decimal number: an integer of which the last `scale` digits stand after
the point. -/
def ofDecimal (digits : Int) (scale : Nat) : Fraction := reduced digits (Int.pow 10 scale)

/-- Every number with a nonzero numerator counts as true. -/
def isTrue (number : Fraction) : Bool := number.num != 0

/-- A number is whole when its denominator is one as it stands. -/
def isWhole (number : Fraction) : Bool := number.den == 1

/-- The printed form: a whole number as its numerator, any other as a quotient. -/
def text (number : Fraction) : Bytes :=
  if number.isWhole then Numeral.ofInt number.num
  else Numeral.ofInt number.num ++ utf8 " / " ++ Numeral.ofInt number.den

end Fraction

/-- Why a fraction could not be built or computed. -/
inductive FractionError
  | malformedDigits (digits : Bytes)
  | malformedPair (num den : Bytes)
  | notMapping (line : Int)
  | unknownOperator (operator : Bytes)
  deriving DecidableEq, Repr

namespace FractionError

/-- The wording of an error. -/
def message : FractionError → Bytes
  | malformedDigits digits => utf8 "malformed digits " ++ Quoted.ofBytes digits
  | malformedPair num den =>
      utf8 "malformed fraction " ++ Quoted.ofBytes num ++ utf8 " / " ++ Quoted.ofBytes den
  | notMapping line =>
      utf8 "line " ++ Numeral.ofInt line ++ utf8 ": fraction must be a mapping"
  | unknownOperator operator =>
      utf8 "unknown fraction operator " ++ Quoted.ofBytes operator

end FractionError

namespace Fraction

/-- Reads a signed run of digits as a decimal number with `scale` digits after
the point. A negative scale moves nothing. -/
def readDecimal (digits : Bytes) (scale : Int) : Except FractionError Fraction :=
  match Numeral.readInt? digits with
  | some value => .ok (ofDecimal value scale.toNat)
  | none => .error (.malformedDigits digits)

end Fraction

end Juxta
