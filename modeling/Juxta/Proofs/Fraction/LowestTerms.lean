/-
# Fractions in lowest terms

A fraction is in lowest terms when its two integers are coprime; the pair of
zeros counts as well. Simplifying always gives lowest terms. Products are only
simplified crosswise, which is enough when both factors are in lowest terms: the
one way in which a common factor could be left is a zero against a zero, and
then both integers of the product are zero.
-/

import Juxta.Fraction.Operation
import Mathlib.RingTheory.Coprime.Lemmas

namespace Juxta.Fraction

/-- The integers of a fraction are coprime or both zero. -/
def IsLowest (number : Fraction) : Prop :=
  Int.gcd number.num number.den = 1 ∨ (number.num = 0 ∧ number.den = 0)

instance (number : Fraction) : Decidable number.IsLowest :=
  inferInstanceAs (Decidable (_ ∨ _))

theorem simplify_zero : simplify 0 0 = (0, 0) := rfl

theorem divisor_eq_gcd {num den : Int} (nonzero : ¬ (num = 0 ∧ den = 0)) :
    (max 1 (Int.gcd num den) : Int) = Int.gcd num den := by
  have positive : 0 < Int.gcd num den := by
    rw [Int.gcd_pos_iff]
    tauto
  omega

/-- Simplifying takes a positive factor out of both integers. -/
theorem exists_factor_simplify (num den : Int) :
    ∃ factor : Int, 0 < factor ∧ num = factor * (simplify num den).1 ∧
      den = factor * (simplify num den).2 := by
  by_cases zero : num = 0 ∧ den = 0
  · obtain ⟨rfl, rfl⟩ := zero
    exact ⟨1, Int.one_pos, rfl, rfl⟩
  · have positive : 0 < Int.gcd num den := by
      rw [Int.gcd_pos_iff]
      tauto
    refine ⟨Int.gcd num den, Int.natCast_pos.mpr positive, ?_, ?_⟩
    · simp only [simplify, divisor_eq_gcd zero]
      exact (Int.mul_ediv_cancel' (Int.gcd_dvd_left ..)).symm
    · simp only [simplify, divisor_eq_gcd zero]
      exact (Int.mul_ediv_cancel' (Int.gcd_dvd_right ..)).symm

theorem simplify_fst_dvd (num den : Int) : (simplify num den).1 ∣ num := by
  obtain ⟨factor, -, num_eq, -⟩ := exists_factor_simplify num den
  exact Dvd.intro_left factor num_eq.symm

theorem simplify_snd_dvd (num den : Int) : (simplify num den).2 ∣ den := by
  obtain ⟨factor, -, -, den_eq⟩ := exists_factor_simplify num den
  exact Dvd.intro_left factor den_eq.symm

theorem simplify_fst_of_zero (den : Int) : (simplify 0 den).1 = 0 := by
  simp [simplify]

theorem simplify_snd_of_zero (num : Int) : (simplify num 0).2 = 0 := by
  simp [simplify]

/-- Unless both integers are zero, simplifying makes them coprime. -/
theorem isCoprime_simplify {num den : Int} (nonzero : ¬ (num = 0 ∧ den = 0)) :
    IsCoprime (simplify num den).1 (simplify num den).2 := by
  have positive : 0 < Int.gcd num den := by
    rw [Int.gcd_pos_iff]
    tauto
  rw [Int.isCoprime_iff_gcd_eq_one]
  simpa [simplify, divisor_eq_gcd nonzero] using Int.gcd_ediv_gcd_ediv_gcd positive

theorem isLowest_of_isCoprime {num den : Int} (coprime : IsCoprime num den) :
    IsLowest ⟨num, den⟩ :=
  .inl (Int.isCoprime_iff_gcd_eq_one.mp coprime)

theorem isLowest_reduced (num den : Int) : (reduced num den).IsLowest := by
  by_cases zero : num = 0 ∧ den = 0
  · obtain ⟨rfl, rfl⟩ := zero
    exact .inr ⟨rfl, rfl⟩
  · exact isLowest_of_isCoprime (isCoprime_simplify zero)

/-- A fraction in lowest terms is simplified already. -/
theorem simplify_of_isLowest {number : Fraction} (lowest : number.IsLowest) :
    simplify number.num number.den = (number.num, number.den) := by
  rcases lowest with coprime | ⟨num, den⟩
  · simp [simplify, coprime]
  · rw [num, den, simplify_zero]

theorem isLowest_ofInt (value : Int) : (ofInt value).IsLowest :=
  .inl (Int.gcd_one_right value)

theorem isLowest_ofBool (value : Bool) : (ofBool value).IsLowest :=
  isLowest_ofInt _

theorem isLowest_infinity : infinity.IsLowest := .inl rfl

theorem isLowest_ofDecimal (digits : Int) (scale : Nat) : (ofDecimal digits scale).IsLowest :=
  isLowest_reduced digits _

theorem isLowest_inverse {number : Fraction} (lowest : number.IsLowest) :
    number.inverse.IsLowest := by
  rcases lowest with coprime | ⟨num, den⟩
  · exact .inl ((Int.gcd_comm _ _).trans coprime)
  · exact .inr ⟨den, num⟩

/-- Crosswise simplification of two fractions in lowest terms leaves no common
factor in their product. -/
theorem isLowest_multiply {first second : Fraction} (hfirst : first.IsLowest)
    (hsecond : second.IsLowest) : (first.multiply second).IsLowest := by
  obtain ⟨a, b⟩ := first
  obtain ⟨c, d⟩ := second
  simp only [IsLowest, ← Int.isCoprime_iff_gcd_eq_one] at hfirst hsecond
  -- A zero that meets a zero makes both integers of the product zero.
  by_cases outer : a = 0 ∧ d = 0
  · obtain ⟨rfl, rfl⟩ := outer
    exact .inr ⟨by simp [multiply, simplify_zero], by simp [multiply, simplify_zero]⟩
  by_cases inner : c = 0 ∧ b = 0
  · obtain ⟨rfl, rfl⟩ := inner
    exact .inr ⟨by simp [multiply, simplify_zero], by simp [multiply, simplify_zero]⟩
  rcases hfirst with hfirst | ⟨rfl, rfl⟩
  · rcases hsecond with hsecond | ⟨rfl, rfl⟩
    · have left : IsCoprime (simplify a d).1 (simplify c b).2 :=
        (hfirst.of_isCoprime_of_dvd_left (simplify_fst_dvd a d)).of_isCoprime_of_dvd_right
          (simplify_snd_dvd c b)
      have right : IsCoprime (simplify c b).1 (simplify a d).2 :=
        (hsecond.of_isCoprime_of_dvd_left (simplify_fst_dvd c b)).of_isCoprime_of_dvd_right
          (simplify_snd_dvd a d)
      apply isLowest_of_isCoprime
      apply IsCoprime.mul_left
      · exact (isCoprime_simplify outer).mul_right left
      · exact right.mul_right (isCoprime_simplify inner)
    · exact .inr ⟨by simp [multiply, simplify_fst_of_zero],
        by simp [multiply, simplify_snd_of_zero]⟩
  · exact .inr ⟨by simp [multiply, simplify_fst_of_zero],
      by simp [multiply, simplify_snd_of_zero]⟩

/-- Every operation keeps fractions in lowest terms. -/
theorem isLowest_operate (operation : Operation) {first second : Fraction}
    (hfirst : first.IsLowest) (hsecond : second.IsLowest) :
    (operate operation first second).IsLowest := by
  cases operation with
  | multiply => exact isLowest_multiply hfirst hsecond
  | divide => exact isLowest_multiply hfirst (isLowest_inverse hsecond)
  | add => exact isLowest_reduced _ _
  | subtract => exact isLowest_reduced _ _
  | equal => exact isLowest_ofBool _
  | less => exact isLowest_ofBool _
  | greater => exact isLowest_ofBool _
  | atMost => exact isLowest_ofBool _
  | atLeast => exact isLowest_ofBool _

end Juxta.Fraction
