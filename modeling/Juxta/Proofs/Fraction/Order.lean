/-
# Comparing fractions

The five comparisons multiply crosswise, which scales the two rationals by the
product of the denominators. Scaling by a positive number keeps the order, and
scaling by a negative one turns it round. So a comparison answers for the
rationals when the denominators have the same sign. Otherwise it answers for the
exchanged rationals, which is right for an equality and for equal rationals only.
A division by a negative number is enough to leave a negative denominator behind.
-/

import Juxta.Proofs.Fraction.Rational
import Mathlib.Algebra.Order.Ring.Cast
import Mathlib.Algebra.Order.Ring.Rat
import Mathlib.Tactic.NormNum

namespace Juxta.Fraction

/-- The operations that compare. -/
inductive Comparison
  | equal | less | greater | atMost | atLeast
  deriving DecidableEq, Repr

namespace Comparison

/-- A comparison as one of the operations. -/
def operation : Comparison → Operation
  | equal => .equal
  | less => .less
  | greater => .greater
  | atMost => .atMost
  | atLeast => .atLeast

variable {α β : Type*} [LinearOrder α] [LinearOrder β]

/-- What a comparison says of two elements of an order. -/
def Holds : Comparison → α → α → Prop
  | equal, x, y => x = y
  | less, x, y => x < y
  | greater, x, y => y < x
  | atMost, x, y => x ≤ y
  | atLeast, x, y => y ≤ x

instance (comparison : Comparison) (x y : α) : Decidable (comparison.Holds x y) :=
  match comparison with
  | equal => inferInstanceAs (Decidable (x = y))
  | less => inferInstanceAs (Decidable (x < y))
  | greater => inferInstanceAs (Decidable (y < x))
  | atMost => inferInstanceAs (Decidable (x ≤ y))
  | atLeast => inferInstanceAs (Decidable (y ≤ x))

theorem holds_of_strictMono {f : α → β} (mono : StrictMono f) (comparison : Comparison) (x y : α) :
    comparison.Holds (f x) (f y) ↔ comparison.Holds x y := by
  cases comparison with
  | equal => exact mono.injective.eq_iff
  | less => exact mono.lt_iff_lt
  | greater => exact mono.lt_iff_lt
  | atMost => exact mono.le_iff_le
  | atLeast => exact mono.le_iff_le

theorem holds_of_strictAnti {f : α → β} (anti : StrictAnti f) (comparison : Comparison) (x y : α) :
    comparison.Holds (f x) (f y) ↔ comparison.Holds y x := by
  cases comparison with
  | equal => exact anti.injective.eq_iff.trans eq_comm
  | less => exact anti.lt_iff_gt
  | greater => exact anti.lt_iff_gt
  | atMost => exact anti.le_iff_ge
  | atLeast => exact anti.le_iff_ge

/-- Exchanging two elements changes every answer but that of an equality, unless
they are equal. -/
theorem holds_swap_iff (comparison : Comparison) (x y : α) :
    (comparison.Holds y x ↔ comparison.Holds x y) ↔ x = y ∨ comparison = .equal := by
  cases comparison with
  | equal => simp [Holds, eq_comm]
  | less | greater | atMost | atLeast =>
    simp only [Holds, reduceCtorEq, or_false]
    grind

end Comparison

/-- A comparison is made between the crosswise products. -/
theorem operate_comparison (comparison : Comparison) (a b : Fraction) :
    operate comparison.operation a b =
      ofBool (decide (comparison.Holds (a.num * b.den) (b.num * a.den))) := by
  cases comparison <;> rfl

theorem ofBool_decide_eq_iff {p q : Prop} [Decidable p] [Decidable q] :
    ofBool (decide p) = ofBool (decide q) ↔ (p ↔ q) := by
  by_cases hp : p <;> by_cases hq : q <;> simp [ofBool, ofInt, hp, hq]

/-- A crosswise product is the rational scaled by both denominators. -/
theorem Denotes.num_mul_eq {a : Fraction} {x : ℚ} (ha : a.Denotes x) (den : Int) :
    ((a.num * den : Int) : ℚ) = x * (a.den * den : Int) := by
  obtain ⟨aden, rfl⟩ := ha
  rw [Int.cast_mul, Int.cast_mul, ← mul_assoc, div_mul_cancel₀ _ (Int.cast_ne_zero.mpr aden)]

section

variable {a b : Fraction} {x y : ℚ}

/-- Crosswise products are in the order of the rationals or in the reverse order. -/
theorem holds_crosswise_iff (ha : a.Denotes x) (hb : b.Denotes y) (comparison : Comparison) :
    comparison.Holds (a.num * b.den) (b.num * a.den) ↔
      if 0 < a.den * b.den then comparison.Holds x y else comparison.Holds y x := by
  -- As rationals, the two products are `x` and `y` scaled by the same number.
  rw [← comparison.holds_of_strictMono (Int.cast_strictMono (R := ℚ)), ha.num_mul_eq,
    hb.num_mul_eq, Int.mul_comm b.den]
  split
  case isTrue positive =>
    have scaling : StrictMono fun z : ℚ => z * (a.den * b.den : Int) :=
      strictMono_mul_right_of_pos (Int.cast_pos.mpr positive)
    exact comparison.holds_of_strictMono scaling x y
  case isFalse notPositive =>
    have negative : a.den * b.den < 0 :=
      lt_of_le_of_ne (not_lt.mp notPositive) (mul_ne_zero ha.1 hb.1)
    have scaling : StrictAnti fun z : ℚ => z * (a.den * b.den : Int) :=
      strictAnti_mul_right (Int.cast_lt_zero.mpr negative)
    exact comparison.holds_of_strictAnti scaling x y

/-- A comparison answers for the rationals if the denominators have the same sign,
and for the exchanged rationals otherwise. The answer is the one for the rationals
exactly if the signs agree, the rationals are equal or equality is asked for. -/
theorem operateText_comparison (ha : a.Denotes x) (hb : b.Denotes y) (comparison : Comparison) :
    operateText (utf8 comparison.operation.symbol) a b =
        .ok (ofBool (decide
          (if 0 < a.den * b.den then comparison.Holds x y else comparison.Holds y x))) ∧
      (operateText (utf8 comparison.operation.symbol) a b =
          .ok (ofBool (decide (comparison.Holds x y))) ↔
        0 < a.den * b.den ∨ x = y ∨ comparison = .equal) := by
  have answer : operateText (utf8 comparison.operation.symbol) a b =
      .ok (ofBool (decide
        (if 0 < a.den * b.den then comparison.Holds x y else comparison.Holds y x))) := by
    rw [operateText_symbol, operate_comparison]
    simp only [holds_crosswise_iff ha hb comparison]
  refine ⟨answer, ?_⟩
  rw [answer, Except.ok.injEq, ofBool_decide_eq_iff]
  by_cases positive : 0 < a.den * b.den
  · simp [positive]
  · rw [if_neg positive, comparison.holds_swap_iff x y]
    simp only [positive, false_or]

end

theorem operateText_comparison_mixedSigns :
    let a : Fraction := ⟨1, -2⟩
    let b : Fraction := ⟨-2, -3⟩
    let c : Fraction := ⟨2, 3⟩
    a.Denotes (-1 / 2) ∧ b.Denotes (2 / 3) ∧ c.Denotes (2 / 3) ∧
      operateText (utf8 "<=") a b = .ok ⟨1, 1⟩ ∧ operateText (utf8 "<=") a c = .ok ⟨0, 1⟩ ∧
      operateText (utf8 "<=") b c = .ok ⟨1, 1⟩ := by
  intro a b c
  have ha : a.Denotes (-1 / 2) := ⟨by decide, by norm_num [a]⟩
  have hb : b.Denotes (2 / 3) := ⟨by decide, by norm_num [b]⟩
  have hc : c.Denotes (2 / 3) := ⟨by decide, by norm_num [c]⟩
  refine ⟨ha, hb, hc, (operateText_comparison ha hb .atMost).1.trans ?_,
    (operateText_comparison ha hc .atMost).1.trans ?_,
    (operateText_comparison hb hc .atMost).1.trans ?_⟩
  · norm_num [a, b, Comparison.Holds, ofBool, ofInt]
  · norm_num [a, c, Comparison.Holds, ofBool, ofInt]
  · norm_num [b, c, Comparison.Holds, ofBool, ofInt]

/-- One divided by minus two is less than one, and is not found to be. -/
theorem operateText_less_negativeQuotient :
    let quotient : Fraction := ⟨1, -2⟩
    operateText (utf8 "/") (ofInt 1) (ofInt (-2)) = .ok quotient ∧
      quotient.Denotes (-1 / 2) ∧ (ofInt 1).Denotes 1 ∧ (-1 / 2 : ℚ) < 1 ∧
      operateText (utf8 "<") quotient (ofInt 1) = .ok ⟨0, 1⟩ := by
  intro quotient
  refine ⟨by rfl, ⟨by decide, ?_⟩, ⟨by decide, ?_⟩, ?_, by rfl⟩
  · norm_num [quotient]
  · norm_num [ofInt]
  · norm_num

end Juxta.Fraction
