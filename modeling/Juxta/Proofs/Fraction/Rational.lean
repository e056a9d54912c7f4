/-
# Fractions as rationals

A fraction whose denominator is not zero denotes a rational number, and the sign
of the number may stand in either of the two integers. Sums, differences,
products and quotients are exact: what they denote is the sum, difference,
product and quotient of what the operands denote. Nothing is cancelled or swapped
that would give a result a denominator it should not have: a denominator of zero
comes from a denominator of zero, or from a division by a numerator of zero.
-/

import Juxta.Proofs.Fraction.Cancellation
import Mathlib.Algebra.Field.Rat
import Mathlib.Tactic.NormNum

namespace Juxta.Fraction

/-- A fraction denotes the quotient of its integers, unless the denominator is
zero. -/
def Denotes (number : Fraction) (rational : ℚ) : Prop :=
  number.den ≠ 0 ∧ (number.num : ℚ) / number.den = rational

namespace Cancels

variable {number : Fraction} {num den : Int}

theorem den_eq_zero_iff (cancels : number.Cancels num den) : number.den = 0 ↔ den = 0 := by
  obtain ⟨factor, positive, -, rfl⟩ := cancels
  simp [positive.ne']

/-- Cancelling does not change the quotient. -/
theorem denotes (cancels : number.Cancels num den) (nonzero : den ≠ 0) :
    number.Denotes (num / den) := by
  refine ⟨fun zero => nonzero (cancels.den_eq_zero_iff.mp zero), ?_⟩
  obtain ⟨factor, positive, rfl, rfl⟩ := cancels
  have factor_ne : (factor : ℚ) ≠ 0 := Int.cast_ne_zero.mpr positive.ne'
  rw [Int.cast_mul, Int.cast_mul, mul_div_mul_left _ _ factor_ne]

end Cancels

theorem den_add_eq_zero_iff (a b : Fraction) : (a.add b).den = 0 ↔ a.den = 0 ∨ b.den = 0 :=
  (cancels_add a b).den_eq_zero_iff.trans mul_eq_zero

theorem den_multiply_eq_zero_iff (a b : Fraction) :
    (a.multiply b).den = 0 ↔ a.den = 0 ∨ b.den = 0 :=
  (cancels_multiply a b).den_eq_zero_iff.trans mul_eq_zero

section

variable {a b : Fraction} {x y : ℚ}

theorem Denotes.add (ha : a.Denotes x) (hb : b.Denotes y) : (a.add b).Denotes (x + y) := by
  obtain ⟨aden, rfl⟩ := ha
  obtain ⟨bden, rfl⟩ := hb
  have exact_sum := (cancels_add a b).denotes (mul_ne_zero aden bden)
  push_cast at exact_sum
  rwa [div_add_div _ _ (Int.cast_ne_zero.mpr aden) (Int.cast_ne_zero.mpr bden),
    mul_comm (a.den : ℚ) b.num]

theorem Denotes.multiply (ha : a.Denotes x) (hb : b.Denotes y) :
    (a.multiply b).Denotes (x * y) := by
  obtain ⟨aden, rfl⟩ := ha
  obtain ⟨bden, rfl⟩ := hb
  have exact_product := (cancels_multiply a b).denotes (mul_ne_zero aden bden)
  push_cast at exact_product
  rwa [div_mul_div_comm]

theorem Denotes.negate (ha : a.Denotes x) : a.negate.Denotes (-x) := by
  obtain ⟨aden, rfl⟩ := ha
  refine ⟨aden, ?_⟩
  simp only [Fraction.negate, Int.cast_neg, neg_div]

theorem Denotes.inverse (ha : a.Denotes x) (nonzero : a.num ≠ 0) : a.inverse.Denotes x⁻¹ := by
  obtain ⟨-, rfl⟩ := ha
  exact ⟨nonzero, (inv_div _ _).symm⟩

theorem Denotes.subtract (ha : a.Denotes x) (hb : b.Denotes y) :
    (a.subtract b).Denotes (x - y) := by
  rw [sub_eq_add_neg]
  exact ha.add hb.negate

theorem Denotes.divide (ha : a.Denotes x) (hb : b.Denotes y) (nonzero : b.num ≠ 0) :
    (a.divide b).Denotes (x / y) := by
  rw [div_eq_mul_inv]
  exact ha.multiply (hb.inverse nonzero)

end

/-- Arithmetic is exact. Operands that denote rationals have a sum, a difference
and a product that denote theirs, and a quotient that denotes theirs if the
divisor is not zero. For operands of any kind, the denominator of a result is zero
only where it has to be. -/
theorem operateText_denotes (a b : Fraction) :
    ∃ sum difference product quotient : Fraction,
      operateText (utf8 "+") a b = .ok sum ∧ operateText (utf8 "-") a b = .ok difference ∧
      operateText (utf8 "*") a b = .ok product ∧ operateText (utf8 "/") a b = .ok quotient ∧
      (∀ x y : ℚ, a.Denotes x → b.Denotes y →
        sum.Denotes (x + y) ∧ difference.Denotes (x - y) ∧ product.Denotes (x * y) ∧
        (b.num ≠ 0 → quotient.Denotes (x / y))) ∧
      (sum.den = 0 ↔ a.den = 0 ∨ b.den = 0) ∧ (difference.den = 0 ↔ a.den = 0 ∨ b.den = 0) ∧
      (product.den = 0 ↔ a.den = 0 ∨ b.den = 0) ∧ (quotient.den = 0 ↔ a.den = 0 ∨ b.num = 0) := by
  refine ⟨a.add b, a.subtract b, a.multiply b, a.divide b,
    operateText_symbol .add a b, operateText_symbol .subtract a b,
    operateText_symbol .multiply a b, operateText_symbol .divide a b, ?_, ?_⟩
  · intro x y ha hb
    exact ⟨ha.add hb, ha.subtract hb, ha.multiply hb, ha.divide hb⟩
  · -- A difference is a sum with `b.negate` and a quotient a product with `b.inverse`.
    exact ⟨den_add_eq_zero_iff a b, den_add_eq_zero_iff a b.negate,
      den_multiply_eq_zero_iff a b, den_multiply_eq_zero_iff a b.inverse⟩

theorem operateText_denotes_negativeDens :
    let a : Fraction := ⟨6, -4⟩
    let b : Fraction := ⟨10, -15⟩
    a.Denotes (-3 / 2) ∧ b.Denotes (-2 / 3) ∧ b.num ≠ 0 ∧
      ∃ sum difference product quotient : Fraction,
        operateText (utf8 "+") a b = .ok sum ∧ operateText (utf8 "-") a b = .ok difference ∧
        operateText (utf8 "*") a b = .ok product ∧ operateText (utf8 "/") a b = .ok quotient ∧
        sum.Denotes (-3 / 2 + -2 / 3) ∧ difference.Denotes (-3 / 2 - -2 / 3) ∧
        product.Denotes (-3 / 2 * (-2 / 3)) ∧ quotient.Denotes (-3 / 2 / (-2 / 3)) := by
  intro a b
  have ha : a.Denotes (-3 / 2) := ⟨by decide, by norm_num [a]⟩
  have hb : b.Denotes (-2 / 3) := ⟨by decide, by norm_num [b]⟩
  have nonzero : b.num ≠ 0 := by decide
  obtain ⟨sum, difference, product, quotient, hsum, hdifference, hproduct, hquotient,
    exact_results, -⟩ := operateText_denotes a b
  obtain ⟨sum_eq, difference_eq, product_eq, quotient_eq⟩ := exact_results _ _ ha hb
  exact ⟨ha, hb, nonzero, sum, difference, product, quotient, hsum, hdifference, hproduct,
    hquotient, sum_eq, difference_eq, product_eq, quotient_eq nonzero⟩

end Juxta.Fraction
