/-
# The simplest pair of a ratio

Two pairs of integers are in the same ratio when positive multiples of them agree.
Signs belong to the ratio: turning both signs of a pair leads to another one, and
the pair of zeros is in a ratio of its own. Simplifying picks one pair out of every
ratio, and this pair is in the ratio itself. That simplifying a second time, or
simplifying a multiple, changes nothing are two cases of the same fact.
-/

import Juxta.Proofs.Fraction.Cancellation

namespace Juxta.Fraction

/-- Positive multiples of two pairs of integers agree. -/
def SameRatio (first second : Int × Int) : Prop :=
  ∃ k l : Int, 0 < k ∧ 0 < l ∧ k * first.1 = l * second.1 ∧ k * first.2 = l * second.2

theorem sameRatio_mul_left {factor : Int} (positive : 0 < factor) (num den : Int) :
    SameRatio (factor * num, factor * den) (num, den) :=
  ⟨1, factor, Int.one_pos, positive, Int.one_mul _, Int.one_mul _⟩

/-- A simplified pair is in the ratio it was simplified from. -/
theorem sameRatio_simplify (num den : Int) : SameRatio (simplify num den) (num, den) := by
  obtain ⟨factor, positive, num_eq, den_eq⟩ := exists_factor_simplify num den
  exact ⟨factor, 1, positive, Int.one_pos, by rw [← num_eq, Int.one_mul],
    by rw [← den_eq, Int.one_mul]⟩

theorem simplify_mul_left {factor : Int} (positive : 0 < factor) (num den : Int) :
    simplify (factor * num) (factor * den) = simplify num den := by
  have same := reduced_mul_left positive num den
  exact Prod.ext (congrArg Fraction.num same) (congrArg Fraction.den same)

/-- Pairs are simplified alike exactly if they are in the same ratio. -/
theorem simplify_eq_simplify_iff {a b c d : Int} :
    simplify a b = simplify c d ↔ SameRatio (a, b) (c, d) := by
  constructor
  · intro same
    obtain ⟨k, k_pos, a_eq, b_eq⟩ := exists_factor_simplify a b
    obtain ⟨l, l_pos, c_eq, d_eq⟩ := exists_factor_simplify c d
    rw [same] at a_eq b_eq
    -- Each pair is a multiple of the same simplified pair, by `k` and by `l`.
    refine ⟨l, k, l_pos, k_pos, ?_, ?_⟩
    · rw [a_eq, mul_left_comm, ← c_eq]
    · rw [b_eq, mul_left_comm, ← d_eq]
  · rintro ⟨k, l, k_pos, l_pos, num_eq, den_eq⟩
    calc simplify a b = simplify (k * a) (k * b) := (simplify_mul_left k_pos a b).symm
      _ = simplify (l * c) (l * d) := congrArg₂ simplify num_eq den_eq
      _ = simplify c d := simplify_mul_left l_pos c d

section Invariants

variable {first second : Int × Int}

theorem SameRatio.cross_eq (same : SameRatio first second) :
    first.1 * second.2 = second.1 * first.2 := by
  obtain ⟨k, l, k_pos, -, num_eq, den_eq⟩ := same
  apply mul_left_cancel₀ k_pos.ne'
  calc k * (first.1 * second.2) = l * second.1 * second.2 := by rw [← mul_assoc, num_eq]
    _ = second.1 * (l * second.2) := by ring
    _ = k * (second.1 * first.2) := by rw [← den_eq, mul_left_comm]

theorem sign_eq_of_mul_eq {k l a b : Int} (k_pos : 0 < k) (l_pos : 0 < l)
    (same : k * a = l * b) : a.sign = b.sign := by
  have signs := congrArg Int.sign same
  rwa [Int.sign_mul, Int.sign_mul, Int.sign_eq_one_of_pos k_pos, Int.sign_eq_one_of_pos l_pos,
    Int.one_mul, Int.one_mul] at signs

theorem SameRatio.sign_eq (same : SameRatio first second) :
    first.1.sign = second.1.sign ∧ first.2.sign = second.2.sign := by
  obtain ⟨k, l, k_pos, l_pos, num_eq, den_eq⟩ := same
  exact ⟨sign_eq_of_mul_eq k_pos l_pos num_eq, sign_eq_of_mul_eq k_pos l_pos den_eq⟩

end Invariants

/-- Simplifying takes a positive factor out of both integers, so that the quotient
and the two signs stay as they are. What is left is coprime, unless both integers are
zero and stay zero. It is simplified already, and any positive multiple of the pair
is simplified to the same. -/
theorem simplify_isSimplest (num den : Int) :
    (∃ factor : Int, 1 ≤ factor ∧ num = factor * (simplify num den).1 ∧
        den = factor * (simplify num den).2) ∧
      (simplify num den).1 * den = num * (simplify num den).2 ∧
      (simplify num den).1.sign = num.sign ∧ (simplify num den).2.sign = den.sign ∧
      (¬ (num = 0 ∧ den = 0) → IsCoprime (simplify num den).1 (simplify num den).2) ∧
      (num = 0 ∧ den = 0 → simplify num den = (0, 0)) ∧
      simplify (simplify num den).1 (simplify num den).2 = simplify num den ∧
      ∀ multiple : Int, 1 ≤ multiple →
        simplify (multiple * num) (multiple * den) = simplify num den := by
  have same := sameRatio_simplify num den
  refine ⟨exists_factor_simplify num den, same.cross_eq, same.sign_eq.1, same.sign_eq.2,
    isCoprime_simplify, ?_, simplify_eq_simplify_iff.mpr same, ?_⟩
  · rintro ⟨rfl, rfl⟩
    exact simplify_zero
  · intro multiple positive
    exact simplify_eq_simplify_iff.mpr (sameRatio_mul_left positive num den)

/-- Both signs are negative, and the greatest common divisor is six. -/
theorem simplify_isSimplest_negative :
    simplify (-12) (-18) = (-2, -3) ∧ ¬ ((-12 : Int) = 0 ∧ (-18 : Int) = 0) ∧
      IsCoprime (-2 : Int) (-3) ∧ (1 : Int) ≤ 35 ∧
      simplify (35 * -12) (35 * -18) = (-2, -3) ∧ simplify 0 0 = (0, 0) := by
  have value : simplify (-12) (-18) = (-2, -3) := by decide
  have nonzero : ¬ ((-12 : Int) = 0 ∧ (-18 : Int) = 0) := by decide
  have positive : (1 : Int) ≤ 35 := by decide
  obtain ⟨-, -, -, -, coprime, -, -, multiples⟩ := simplify_isSimplest (-12) (-18)
  obtain ⟨-, -, -, -, -, zeros, -⟩ := simplify_isSimplest 0 0
  have coprime := coprime nonzero
  have multiple := multiples 35 positive
  rw [value] at coprime multiple
  exact ⟨value, nonzero, coprime, positive, multiple, zeros ⟨rfl, rfl⟩⟩

end Juxta.Fraction
