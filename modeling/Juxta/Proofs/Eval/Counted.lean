/-
# Operators with a count

A trim changes a string by a number of bytes and a shift by a number of bits. A
count that is large enough uses the string up: nothing is left by a trim and only
zeros by a shift, and a larger count does no more. The evaluator acts on no count
beyond a fixed bound. This is not seen as long as the bound uses the string up,
which it does for every string whose size in bytes or bits does not pass the
bound, and for some strings of every larger size it does not.
-/

import Juxta.Eval.Operation
import Juxta.Proofs.Eval.Related
import Juxta.Proofs.Value.Buffer

namespace Juxta

/-- The operators that change a string by a count. -/
inductive Counted
  | trimLeft | trimRight | shiftLeft | shiftRight
  deriving DecidableEq, Repr

namespace Counted

/-- A counted operator as one of the operators. -/
def operator : Counted → Operator
  | trimLeft => .trimLeft
  | trimRight => .trimRight
  | shiftLeft => .shiftLeft
  | shiftRight => .shiftRight

/-- What a counted operator does to a string. -/
def change : Counted → Bytes → Nat → Bytes
  | trimLeft => Buffer.trimLeft
  | trimRight => Buffer.trimRight
  | shiftLeft => Buffer.shiftLeft
  | shiftRight => Buffer.shiftRight

/-- How far one has to count to use up a byte. -/
def grain : Counted → Nat
  | trimLeft | trimRight => 1
  | shiftLeft | shiftRight => 8

/-- What is left of a string that is used up. -/
def remains : Counted → Bytes → Bytes
  | trimLeft, _ | trimRight, _ => []
  | shiftLeft, string | shiftRight, string => Bytes.fill string.length 0

section Runs

variable {σ : Type} (call : Closure Value → Value → Run σ Value) (state : σ)

/-- A count is taken as it stands: it is refused unless its denominator is one and
its numerator is not negative. -/
theorem start_apply_number (kind : Counted) (string : Bytes) (number : Fraction) :
    (kind.operator.apply call (.string string) (.number number)).start state =
      if number.den = 1 ∧ 0 ≤ number.num then
        (.ok (.string (kind.change string (min number.num.toNat Value.maxCount))), state)
      else (.error (.eval ⟨kind.operator.text, .countNotNatural number⟩), state) := by
  have unfolded : kind.operator.apply call (.string string) (.number number) =
      Run.ofEval ((Value.count kind.operator (.number number)).map fun count =>
        .string (kind.change string count)) := by
    cases kind <;> rfl
  rw [unfolded, Value.count]
  by_cases natural : number.den = 1 ∧ 0 ≤ number.num
  · rw [if_pos natural, if_pos (by simpa [Fraction.isWhole] using natural)]
    rfl
  · rw [if_neg natural, if_neg (by simpa [Fraction.isWhole] using natural)]
    rfl

/-- A natural number is a count, up to the bound. -/
theorem start_apply_ofNat (kind : Counted) (string : Bytes) (count : Nat) :
    (kind.operator.apply call (.string string) (.number (Fraction.ofInt count))).start state =
      (.ok (.string (kind.change string (min count Value.maxCount))), state) := by
  rw [start_apply_number, if_pos ⟨rfl, Int.natCast_nonneg count⟩]
  rfl

end Runs

/-- A count of the size of a string uses it up. -/
theorem change_eq_remains (kind : Counted) {string : Bytes} {count : Nat}
    (many : kind.grain * string.length ≤ count) :
    kind.change string count = kind.remains string := by
  cases kind with
  | trimLeft =>
      rw [grain, Nat.one_mul] at many
      exact Buffer.trimLeft_eq_nil_iff.mpr many
  | trimRight =>
      rw [grain, Nat.one_mul] at many
      exact Buffer.trimRight_eq_nil_iff.mpr many
  | shiftLeft =>
      exact Buffer.shiftLeft_eq_fill_iff.mpr
        (Nat.dvd_mul_left_of_dvd (Nat.pow_dvd_pow 2 many) _)
  | shiftRight =>
      exact Buffer.shiftRight_eq_fill_iff.mpr
        (Nat.lt_of_lt_of_le (Buffer.toNat_lt string) (Nat.pow_le_pow_right (by decide) many))

/-- A string that is used up stays used up. -/
theorem change_eq_remains_of_le (kind : Counted) {string : Bytes} {few many : Nat}
    (fewer : few ≤ many) (used : kind.change string few = kind.remains string) :
    kind.change string many = kind.remains string := by
  cases kind with
  | trimLeft =>
      have short : string.length ≤ few := Buffer.trimLeft_eq_nil_iff.mp used
      exact Buffer.trimLeft_eq_nil_iff.mpr (Nat.le_trans short fewer)
  | trimRight =>
      have short : string.length ≤ few := Buffer.trimRight_eq_nil_iff.mp used
      exact Buffer.trimRight_eq_nil_iff.mpr (Nat.le_trans short fewer)
  | shiftLeft =>
      obtain ⟨more, rfl⟩ := Nat.exists_eq_add_of_le fewer
      apply Buffer.shiftLeft_eq_fill_iff.mpr
      rw [Nat.pow_add, ← Nat.mul_assoc]
      exact Nat.dvd_mul_right_of_dvd (Buffer.shiftLeft_eq_fill_iff.mp used) _
  | shiftRight =>
      exact Buffer.shiftRight_eq_fill_iff.mpr
        (Nat.lt_of_lt_of_le (Buffer.shiftRight_eq_fill_iff.mp used)
          (Nat.pow_le_pow_right (by decide) fewer))

/-- Two counts do the same to a string only if the smaller one uses it up. -/
theorem change_eq_change_iff (kind : Counted) (string : Bytes) {few many : Nat}
    (fewer : few < many) :
    kind.change string few = kind.change string many ↔
      kind.change string few = kind.remains string := by
  constructor
  · intro same
    cases kind with
    | trimLeft =>
        have lengths := congrArg List.length same
        rw [change, Buffer.length_trimLeft, Buffer.length_trimLeft] at lengths
        exact Buffer.trimLeft_eq_nil_iff.mpr (by omega)
    | trimRight =>
        have lengths := congrArg List.length same
        rw [change, Buffer.length_trimRight, Buffer.length_trimRight] at lengths
        exact Buffer.trimRight_eq_nil_iff.mpr (by omega)
    | shiftLeft => exact Buffer.shiftLeft_eq_fill_of_eq fewer same
    | shiftRight => exact Buffer.shiftRight_eq_fill_of_eq fewer same
  · intro used
    rw [used, change_eq_remains_of_le kind (Nat.le_of_lt fewer) used]

/-- A string of ones is not used up before the count reaches its size. -/
theorem change_fill_ne_remains (kind : Counted) {length count : Nat}
    (few : count < kind.grain * length) :
    kind.change (Bytes.fill length 255) count ≠ kind.remains (Bytes.fill length 255) := by
  have size : (Bytes.fill length 255).length = length := List.length_replicate
  cases kind with
  | trimLeft =>
      intro used
      have short := Buffer.trimLeft_eq_nil_iff.mp used
      rw [grain] at few
      omega
  | trimRight =>
      intro used
      have short := Buffer.trimRight_eq_nil_iff.mp used
      rw [grain] at few
      omega
  | shiftLeft =>
      apply Buffer.shiftLeft_ne_fill_of_odd
      · rw [Buffer.toNat_fill_mod_two (by rw [grain] at few; omega)]
        rfl
      · rwa [size]
  | shiftRight =>
      intro used
      have small := Buffer.shiftRight_eq_fill_iff.mp used
      have greatest := Buffer.toNat_fill_max length
      have double : 2 ^ (count + 1) ≤ 2 ^ (8 * length) := Nat.pow_le_pow_right (by decide) few
      have := Nat.two_pow_pos count
      rw [Nat.pow_succ] at double
      omega

/-- The bound on counts is not seen exactly if the count keeps to it or if it uses
the string up. It uses up every string of its own size, and no longer string of
ones. -/
theorem apply_eq_unbounded_iff {σ : Type} (call : Closure Value → Value → Run σ Value) (state : σ)
    (kind : Counted) (string : Bytes) (count : Nat) :
    ((kind.operator.apply call (.string string) (.number (Fraction.ofInt count))).start state =
        (.ok (.string (kind.change string count)), state) ↔
      count ≤ Value.maxCount ∨ kind.change string Value.maxCount = kind.remains string) ∧
    (kind.grain * string.length ≤ Value.maxCount →
      kind.change string Value.maxCount = kind.remains string) ∧
    ∀ length, Value.maxCount < kind.grain * length →
      kind.change (Bytes.fill length 255) Value.maxCount ≠
        kind.remains (Bytes.fill length 255) := by
  refine ⟨?_, change_eq_remains kind, fun length => change_fill_ne_remains kind⟩
  rw [start_apply_ofNat, Prod.mk.injEq, Except.ok.injEq, Value.string.injEq]
  rcases Nat.lt_or_ge Value.maxCount count with beyond | within
  · rw [Nat.min_eq_right (Nat.le_of_lt beyond), change_eq_change_iff kind string beyond]
    simp [Nat.not_le_of_lt beyond]
  · simp [within]

theorem apply_eq_unbounded_shortString :
    let call : Closure Value → Value → Run Unit Value := fun _ _ => throw .tooDeep
    shiftLeft.grain * (utf8 "ab").length ≤ Value.maxCount ∧
      Value.maxCount < shiftLeft.grain * 268435456 ∧
      (Operator.shiftLeft.apply call (.string (utf8 "ab"))
          (.number (Fraction.ofInt ((10 ^ 12 : Nat) : Int)))).start () =
        (.ok (.string (Buffer.shiftLeft (utf8 "ab") (10 ^ 12))), ()) ∧
      Buffer.shiftLeft (Bytes.fill 268435456 255) Value.maxCount ≠
        shiftLeft.remains (Bytes.fill 268435456 255) := by
  intro call
  have short : shiftLeft.grain * (utf8 "ab").length ≤ Value.maxCount := by decide
  have long : Value.maxCount < shiftLeft.grain * 268435456 := by decide
  obtain ⟨unseen, used, unused⟩ :=
    apply_eq_unbounded_iff call () shiftLeft (utf8 "ab") (10 ^ 12)
  exact ⟨short, long, unseen.mpr (.inr (used short)), unused _ long⟩

/-- A string of 2 ^ 28 bytes and a shift by 2 ^ 31 bits: nothing should be left, and the
last bit is. -/
theorem apply_ne_unbounded_longString :
    let call : Closure Value → Value → Run Unit Value := fun _ _ => throw .tooDeep
    let string := Bytes.fill 268435456 0x61
    (Operator.shiftLeft.apply call (.string string) (.number ⟨2147483648, 1⟩)).start () ≠
      (.ok (.string (Buffer.shiftLeft string 2147483648)), ()) := by
  intro call string same
  have size : string.length = 268435456 := List.length_replicate
  have beyond : Value.maxCount < 2147483648 := by decide
  have bounded := start_apply_ofNat call () shiftLeft string 2147483648
  rw [Nat.min_eq_right (Nat.le_of_lt beyond)] at bounded
  have agree : shiftLeft.change string Value.maxCount = shiftLeft.change string 2147483648 := by
    have outcome := bounded.symm.trans same
    rw [Prod.mk.injEq, Except.ok.injEq, Value.string.injEq] at outcome
    exact outcome.1
  have odd : Buffer.toNat string % 2 = 1 := Buffer.toNat_fill_mod_two (by decide) 0x61
  have few : Value.maxCount < 8 * string.length := by
    rw [size]
    decide
  exact Buffer.shiftLeft_ne_fill_of_odd odd few
    ((change_eq_change_iff shiftLeft string beyond).mp agree)

end Counted

end Juxta
