/-
# Cancelling common factors

Sums and products are formed from products of integers, and what is left of these
when a positive common factor is cancelled is the result. How large the factor is
differs from one operation to the next: a sum is reduced as a whole, a product
only crosswise. The factor does not matter for what is reduced afterwards, so
sums may be grouped in any way, whatever their denominators, and so may products
of fractions in lowest terms, for which crosswise reduction is reduction.
-/

import Juxta.Proofs.Fraction.LowestTerms
import Mathlib.Tactic.Ring

namespace Juxta.Fraction

/-- A fraction is what is left of two integers when a positive common factor is
cancelled. The factor need not be the greatest one. -/
def Cancels (number : Fraction) (num den : Int) : Prop :=
  ∃ factor : Int, 0 < factor ∧ num = factor * number.num ∧ den = factor * number.den

theorem cancels_reduced (num den : Int) : (reduced num den).Cancels num den :=
  exists_factor_simplify num den

theorem cancels_add (a b : Fraction) :
    (a.add b).Cancels (a.num * b.den + b.num * a.den) (a.den * b.den) :=
  cancels_reduced _ _

/-- The two crosswise reductions of a product together cancel one factor. -/
theorem cancels_multiply (a b : Fraction) :
    (a.multiply b).Cancels (a.num * b.num) (a.den * b.den) := by
  -- `outer` is taken out of `a.num` and `b.den`, `inner` out of `b.num` and `a.den`.
  obtain ⟨outer, outer_pos, anum, bden⟩ := exists_factor_simplify a.num b.den
  obtain ⟨inner, inner_pos, bnum, aden⟩ := exists_factor_simplify b.num a.den
  refine ⟨outer * inner, Int.mul_pos outer_pos inner_pos, ?_, ?_⟩
  · calc a.num * b.num
        = outer * (simplify a.num b.den).1 * (inner * (simplify b.num a.den).1) := by
          rw [← anum, ← bnum]
      _ = outer * inner * (a.multiply b).num := mul_mul_mul_comm ..
  · calc a.den * b.den
        = inner * (simplify b.num a.den).2 * (outer * (simplify a.num b.den).2) := by
          rw [← aden, ← bden]
      _ = outer * inner * (a.multiply b).den := by
          rw [multiply]
          ring

/-- A positive common factor is cancelled by reduction. -/
theorem reduced_mul_left {factor : Int} (positive : 0 < factor) (num den : Int) :
    reduced (factor * num) (factor * den) = reduced num den := by
  by_cases zero : num = 0 ∧ den = 0
  · obtain ⟨rfl, rfl⟩ := zero
    rw [Int.mul_zero]
  · have nonzero : ¬ (factor * num = 0 ∧ factor * den = 0) := by
      simpa [positive.ne'] using zero
    have divisor : (max 1 (Int.gcd (factor * num) (factor * den)) : Int) =
        factor * Int.gcd num den := by
      rw [divisor_eq_gcd nonzero, Int.gcd_mul_left, Int.natCast_mul,
        Int.natAbs_of_nonneg positive.le]
    simp only [reduced, simplify, divisor, divisor_eq_gcd zero,
      Int.mul_ediv_mul_of_pos _ _ positive]

namespace Cancels

variable {number : Fraction} {num den : Int}

theorem reduced_mul (cancels : number.Cancels num den) (p q : Int) :
    reduced (number.num * p) (number.den * q) = reduced (num * p) (den * q) := by
  obtain ⟨factor, positive, rfl, rfl⟩ := cancels
  rw [mul_assoc, mul_assoc, reduced_mul_left positive]

/-- What is left in lowest terms is the reduced fraction. -/
theorem eq_reduced (cancels : number.Cancels num den) (lowest : number.IsLowest) :
    number = reduced num den := by
  obtain ⟨factor, positive, rfl, rfl⟩ := cancels
  rw [reduced_mul_left positive, reduced, simplify_of_isLowest lowest]

/-- A sum may be formed before the common factor of a summand is cancelled. -/
theorem add_eq (cancels : number.Cancels num den) (other : Fraction) :
    number.add other = reduced (num * other.den + other.num * den) (den * other.den) := by
  obtain ⟨factor, positive, rfl, rfl⟩ := cancels
  calc number.add other
      = reduced (factor * (number.num * other.den + other.num * number.den))
          (factor * (number.den * other.den)) := (reduced_mul_left positive _ _).symm
    _ = _ := by congr 1 <;> ring

end Cancels

protected theorem add_comm (a b : Fraction) : a.add b = b.add a := by
  rw [add, add, Int.add_comm, Int.mul_comm a.den]

theorem multiply_comm (a b : Fraction) : a.multiply b = b.multiply a := by
  simp only [multiply, Int.mul_comm]

/-- Crosswise reduction is reduction for factors in lowest terms. -/
theorem multiply_eq_reduced {a b : Fraction} (ha : a.IsLowest) (hb : b.IsLowest) :
    a.multiply b = reduced (a.num * b.num) (a.den * b.den) :=
  (cancels_multiply a b).eq_reduced (isLowest_multiply ha hb)

/-- The factor that the first product cancels does not show in the second. -/
theorem multiply_multiply_eq_reduced {a b c : Fraction} (ha : a.IsLowest) (hb : b.IsLowest)
    (hc : c.IsLowest) :
    (a.multiply b).multiply c = reduced (a.num * b.num * c.num) (a.den * b.den * c.den) := by
  rw [multiply_eq_reduced (isLowest_multiply ha hb) hc]
  exact (cancels_multiply a b).reduced_mul c.num c.den

theorem multiply_multiply_right_eq_reduced {a b c : Fraction} (ha : a.IsLowest)
    (hb : b.IsLowest) (hc : c.IsLowest) :
    a.multiply (b.multiply c) = reduced (a.num * b.num * c.num) (a.den * b.den * c.den) := by
  rw [multiply_comm a, multiply_multiply_eq_reduced hb hc ha]
  congr 1 <;> ring

/-- A sum of three over the product of their denominators. -/
theorem add_add_eq_reduced (a b c : Fraction) :
    (a.add b).add c =
      reduced (a.num * b.den * c.den + a.den * b.num * c.den + a.den * b.den * c.num)
        (a.den * b.den * c.den) := by
  rw [(cancels_add a b).add_eq c]
  congr 1
  ring

theorem operateText_symbol (operation : Operation) (a b : Fraction) :
    operateText (utf8 operation.symbol) a b = .ok (operate operation a b) := by
  cases operation <;> rfl

theorem operateText_operateText_left (operation : Operation) (a b c : Fraction) :
    (do operateText (utf8 operation.symbol) (← operateText (utf8 operation.symbol) a b) c) =
      .ok (operate operation (operate operation a b) c) := by
  rw [operateText_symbol operation a b]
  exact operateText_symbol operation _ c

theorem operateText_operateText_right (operation : Operation) (a b c : Fraction) :
    (do operateText (utf8 operation.symbol) a (← operateText (utf8 operation.symbol) b c)) =
      .ok (operate operation a (operate operation b c)) := by
  rw [operateText_symbol operation b c]
  exact operateText_symbol operation a _

/-- The product of two fractions in lowest terms is the reduced fraction of the
products of their numerators and of their denominators, and three of them may be
grouped in either way. Denominators may be zero or negative. -/
theorem operateText_multiply_reduces {a b : Fraction} (ha : a.IsLowest) (hb : b.IsLowest) :
    operateText (utf8 "*") a b = .ok (reduced (a.num * b.num) (a.den * b.den)) ∧
      ∀ c : Fraction, c.IsLowest →
        (do operateText (utf8 "*") (← operateText (utf8 "*") a b) c) =
            .ok (reduced (a.num * b.num * c.num) (a.den * b.den * c.den)) ∧
          (do operateText (utf8 "*") a (← operateText (utf8 "*") b c)) =
            .ok (reduced (a.num * b.num * c.num) (a.den * b.den * c.den)) := by
  constructor
  · rw [← multiply_eq_reduced ha hb]
    exact operateText_symbol .multiply a b
  · intro c hc
    constructor
    · rw [← multiply_multiply_eq_reduced ha hb hc]
      exact operateText_operateText_left .multiply a b c
    · rw [← multiply_multiply_right_eq_reduced ha hb hc]
      exact operateText_operateText_right .multiply a b c

theorem operateText_multiply_reduces_infinity :
    let a : Fraction := ⟨6, -35⟩
    let b : Fraction := ⟨-14, 15⟩
    a.IsLowest ∧ b.IsLowest ∧ infinity.IsLowest ∧
      operateText (utf8 "*") a b = .ok ⟨-4, -25⟩ ∧
      (do operateText (utf8 "*") (← operateText (utf8 "*") a b) infinity) = .ok ⟨-1, 0⟩ ∧
      (do operateText (utf8 "*") a (← operateText (utf8 "*") b infinity)) = .ok ⟨-1, 0⟩ := by
  intro a b
  have ha : a.IsLowest := by decide
  have hb : b.IsLowest := by decide
  have two : reduced (a.num * b.num) (a.den * b.den) = ⟨-4, -25⟩ := by decide
  have three : reduced (a.num * b.num * infinity.num) (a.den * b.den * infinity.den) = ⟨-1, 0⟩ := by
    decide
  obtain ⟨product, grouped⟩ := operateText_multiply_reduces ha hb
  obtain ⟨left, right⟩ := grouped infinity isLowest_infinity
  rw [two] at product
  rw [three] at left right
  exact ⟨ha, hb, isLowest_infinity, product, left, right⟩

-- A common factor that is in one of the operands already stays in the product.
example : operateText (utf8 "*") ⟨2, 4⟩ (ofInt 1) = .ok ⟨2, 4⟩ := by rfl

/-- A sum of three fractions does not depend on how they are grouped, whatever
their integers are. -/
theorem operateText_add_grouping (a b c : Fraction) :
    let total := reduced
      (a.num * b.den * c.den + a.den * b.num * c.den + a.den * b.den * c.num)
      (a.den * b.den * c.den)
    (do operateText (utf8 "+") (← operateText (utf8 "+") a b) c) = .ok total ∧
      (do operateText (utf8 "+") a (← operateText (utf8 "+") b c)) = .ok total := by
  intro total
  have left : (a.add b).add c = total := add_add_eq_reduced a b c
  have right : a.add (b.add c) = total := by
    rw [Fraction.add_comm a, add_add_eq_reduced b c a]
    congr 1 <;> ring
  constructor
  · rw [← left]
    exact operateText_operateText_left .add a b c
  · rw [← right]
    exact operateText_operateText_right .add a b c

end Juxta.Fraction
