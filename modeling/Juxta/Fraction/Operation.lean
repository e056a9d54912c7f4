/-
# Arithmetic and order of fractions

Products and quotients are reduced crosswise before multiplying and not again
afterwards; sums and differences are reduced at the end. Comparisons multiply
crosswise and look at no sign, so fractions with a zero or negative denominator
compare in ways of their own.
-/

import Juxta.Fraction.Basic

namespace Juxta.Fraction

/-- The operations that two fractions have. -/
inductive Operation
  | multiply | divide | add | subtract
  | equal | less | greater | atMost | atLeast
  deriving DecidableEq, Repr

namespace Operation

/-- The operator that denotes an operation. -/
def symbol : Operation → String
  | multiply => "*"
  | divide => "/"
  | add => "+"
  | subtract => "-"
  | equal => "="
  | less => "<"
  | greater => ">"
  | atMost => "<="
  | atLeast => ">="

/-- Every operation. -/
def all : List Operation :=
  [multiply, divide, add, subtract, equal, less, greater, atMost, atLeast]

/-- The operation that an operator denotes. -/
def ofText? (text : Bytes) : Option Operation :=
  all.find? fun operation => utf8 operation.symbol == text

end Operation

/-- The product. Each numerator is reduced against the other denominator. -/
def multiply (a b : Fraction) : Fraction :=
  let first := simplify a.num b.den
  let second := simplify b.num a.den
  ⟨first.1 * second.1, first.2 * second.2⟩

/-- The fraction with its two integers exchanged. -/
def inverse (a : Fraction) : Fraction := ⟨a.den, a.num⟩

/-- The fraction with its numerator negated. -/
def negate (a : Fraction) : Fraction := ⟨-a.num, a.den⟩

/-- The quotient, as the product with the inverse. -/
def divide (a b : Fraction) : Fraction := a.multiply b.inverse

/-- The sum over the product of the denominators, in lowest terms. -/
def add (a b : Fraction) : Fraction :=
  reduced (a.num * b.den + b.num * a.den) (a.den * b.den)

/-- The difference, as the sum with the negated fraction. -/
def subtract (a b : Fraction) : Fraction := a.add b.negate

/-- Crosswise equality. -/
def isEqual (a b : Fraction) : Bool := a.num * b.den == b.num * a.den

/-- Crosswise strict order. -/
def isLess (a b : Fraction) : Bool := a.num * b.den < b.num * a.den

/-- Crosswise order. -/
def isAtMost (a b : Fraction) : Bool := a.num * b.den ≤ b.num * a.den

/-- Applies an operation; a comparison gives one or zero. -/
def operate : Operation → Fraction → Fraction → Fraction
  | .multiply, a, b => a.multiply b
  | .divide, a, b => a.divide b
  | .add, a, b => a.add b
  | .subtract, a, b => a.subtract b
  | .equal, a, b => ofBool (a.isEqual b)
  | .less, a, b => ofBool (a.isLess b)
  | .greater, a, b => ofBool (b.isLess a)
  | .atMost, a, b => ofBool (a.isAtMost b)
  | .atLeast, a, b => ofBool (b.isAtMost a)

/-- Applies the operation that an operator denotes. -/
def operateText (operator : Bytes) (a b : Fraction) : Except FractionError Fraction :=
  match Operation.ofText? operator with
  | some operation => .ok (operate operation a b)
  | none => .error (.unknownOperator operator)

end Juxta.Fraction
