/-
# Buffers as integers

A buffer is an integer whose most significant bits stand in the first byte. Read
in this way, dropping bytes in front is a remainder, dropping them at the back is
a quotient, and a shift is a multiplication or a division by a power of two. The
carries between neighbouring bytes are what the multiplication and the division
do at the boundary between two bytes.
-/

import Juxta.Value.Buffer
import Mathlib.Data.Nat.Prime.Basic
import Mathlib.Tactic.Ring

namespace Juxta.Buffer

/-- The integer that a buffer holds, with the first byte as the most significant. -/
def toNat : Bytes → Nat
  | [] => 0
  | byte :: rest => byte.toNat * 2 ^ (8 * rest.length) + toNat rest

/-- One more byte widens a buffer by eight bits. -/
theorem width_succ (length : Nat) : 2 ^ (8 * (length + 1)) = 2 ^ (8 * length) * 2 ^ 8 := by
  rw [Nat.mul_add, Nat.pow_add]

/-- A buffer holds an integer of its own width. -/
theorem toNat_lt (buffer : Bytes) : toNat buffer < 2 ^ (8 * buffer.length) := by
  induction buffer with
  | nil => exact Nat.one_pos
  | cons byte rest ih =>
      have digit : byte.toNat + 1 ≤ 2 ^ 8 := byte.toNat_lt
      calc toNat (byte :: rest)
          < byte.toNat * 2 ^ (8 * rest.length) + 2 ^ (8 * rest.length) := Nat.add_lt_add_left ih _
        _ = (byte.toNat + 1) * 2 ^ (8 * rest.length) := (Nat.succ_mul _ _).symm
        _ ≤ 2 ^ 8 * 2 ^ (8 * rest.length) := Nat.mul_le_mul_right _ digit
        _ = 2 ^ (8 * (byte :: rest).length) := by rw [List.length_cons, width_succ, Nat.mul_comm]

theorem toNat_append (front back : Bytes) :
    toNat (front ++ back) = 2 ^ (8 * back.length) * toNat front + toNat back := by
  induction front with
  | nil => simp [toNat]
  | cons byte rest ih =>
      rw [List.cons_append, toNat, ih, toNat, List.length_append, Nat.mul_add, Nat.pow_add]
      ring

/-- The front of a buffer holds its high bits. -/
theorem toNat_append_div (front back : Bytes) :
    toNat (front ++ back) / 2 ^ (8 * back.length) = toNat front := by
  rw [toNat_append, Nat.mul_add_div (Nat.two_pow_pos _), Nat.div_eq_of_lt (toNat_lt back),
    Nat.add_zero]

/-- The back of a buffer holds its low bits. -/
theorem toNat_append_mod (front back : Bytes) :
    toNat (front ++ back) % 2 ^ (8 * back.length) = toNat back := by
  rw [toNat_append, Nat.mul_add_mod, Nat.mod_eq_of_lt (toNat_lt back)]

theorem toNat_singleton (byte : UInt8) : toNat [byte] = byte.toNat := by
  simp [toNat]

/-- Buffers of one length that hold the same integer are the same. -/
theorem eq_of_toNat_eq {first second : Bytes} (length : first.length = second.length)
    (same : toNat first = toNat second) : first = second := by
  induction first generalizing second with
  | nil => exact (List.length_eq_zero_iff.mp length.symm).symm
  | cons byte rest ih =>
      obtain ⟨byte', rest', rfl⟩ : ∃ byte' rest', second = byte' :: rest' :=
        List.exists_cons_of_length_eq_add_one length.symm
      have length : rest.length = rest'.length := Nat.succ_injective length
      have heads : toNat [byte] = toNat [byte'] := by
        rw [← toNat_append_div [byte] rest, ← toNat_append_div [byte'] rest', ← length]
        exact congrArg (· / 2 ^ (8 * rest.length)) same
      have tails : toNat rest = toNat rest' := by
        rw [← toNat_append_mod [byte] rest, ← toNat_append_mod [byte'] rest', ← length]
        exact congrArg (· % 2 ^ (8 * rest.length)) same
      rw [toNat_singleton, toNat_singleton] at heads
      rw [UInt8.toNat_inj.mp heads, ih length tails]

theorem toNat_fill_zero (length : Nat) : toNat (Bytes.fill length 0) = 0 := by
  induction length with
  | zero => rfl
  | succ length ih =>
      rw [Bytes.fill] at ih
      rw [Bytes.fill, List.replicate_succ, toNat, ih]
      simp

/-- A buffer holds zero exactly if all its bytes are zero. -/
theorem toNat_eq_zero_iff {buffer : Bytes} :
    toNat buffer = 0 ↔ buffer = Bytes.fill buffer.length 0 := by
  constructor
  · intro zero
    exact eq_of_toNat_eq List.length_replicate.symm (zero.trans (toNat_fill_zero _).symm)
  · intro zeros
    rw [zeros, toNat_fill_zero]

theorem toNat_drop (buffer : Bytes) (count : Nat) :
    toNat (buffer.drop count) = toNat buffer % 2 ^ (8 * (buffer.length - count)) := by
  have low := toNat_append_mod (buffer.take count) (buffer.drop count)
  rwa [List.take_append_drop, List.length_drop, eq_comm] at low

theorem toNat_take (buffer : Bytes) (count : Nat) :
    toNat (buffer.take count) = toNat buffer / 2 ^ (8 * (buffer.length - count)) := by
  have high := toNat_append_div (buffer.take count) (buffer.drop count)
  rwa [List.take_append_drop, List.length_drop, eq_comm] at high

/-! ### Carries -/

/-- A byte takes part of its successor when bits move to the front, if it has one. -/
theorem carryLeft_cons (bits : Nat) (byte : UInt8) (rest : Bytes) :
    carryLeft bits (byte :: rest) =
      UInt8.ofNat ((256 * byte.toNat + (rest.headD 0).toNat) / 2 ^ (8 - bits)) ::
        carryLeft bits rest := by
  rw [← Nat.shiftRight_eq_div_pow]
  cases rest with
  | nil => rfl
  | cons next rest => rfl

/-- A byte takes part of the byte before it when bits move to the back. -/
theorem carryRight_cons (bits : Nat) (previous byte : UInt8) (rest : Bytes) :
    carryRight bits previous (byte :: rest) =
      UInt8.ofNat ((256 * previous.toNat + byte.toNat) / 2 ^ bits) ::
        carryRight bits byte rest := by
  rw [carryRight, Nat.shiftRight_eq_div_pow]

@[simp]
theorem length_carryLeft (bits : Nat) (buffer : Bytes) :
    (carryLeft bits buffer).length = buffer.length := by
  induction buffer with
  | nil => rfl
  | cons byte rest ih => rw [carryLeft_cons, List.length_cons, ih, List.length_cons]

@[simp]
theorem length_carryRight (bits : Nat) (previous : UInt8) (buffer : Bytes) :
    (carryRight bits previous buffer).length = buffer.length := by
  induction buffer generalizing previous with
  | nil => rfl
  | cons byte rest ih => rw [carryRight_cons, List.length_cons, ih, List.length_cons]

/-- The bits that leave a buffer in front are the high bits of its first byte. -/
theorem toNat_mul_div_width {bits : Nat} (small : bits ≤ 8) (buffer : Bytes) :
    toNat buffer * 2 ^ bits / 2 ^ (8 * buffer.length) =
      (buffer.headD 0).toNat / 2 ^ (8 - bits) := by
  cases buffer with
  | nil => simp [toNat]
  | cons byte rest =>
      have first : toNat (byte :: rest) / 2 ^ (8 * rest.length) = byte.toNat := by
        rw [← toNat_singleton byte, ← toNat_append_div [byte] rest, List.singleton_append]
      rw [List.length_cons, width_succ, ← Nat.pow_sub_mul_pow 2 small, ← Nat.mul_assoc,
        Nat.mul_div_mul_right _ _ (Nat.two_pow_pos bits), ← Nat.div_div_eq_div_mul, first]
      rfl

/-- Moving bits to the front multiplies, and what leaves the buffer is lost. -/
theorem toNat_carryLeft {bits : Nat} (small : bits ≤ 8) (buffer : Bytes) :
    toNat (carryLeft bits buffer) = toNat buffer * 2 ^ bits % 2 ^ (8 * buffer.length) := by
  induction buffer with
  | nil => simp [carryLeft, toNat]
  | cons byte rest ih =>
      have product : toNat (byte :: rest) * 2 ^ bits =
          2 ^ (8 * rest.length) * (byte.toNat * 2 ^ bits) + toNat rest * 2 ^ bits := by
        rw [toNat]
        ring
      have head : (256 * byte.toNat + (rest.headD 0).toNat) / 2 ^ (8 - bits) =
          byte.toNat * 2 ^ bits + toNat rest * 2 ^ bits / 2 ^ (8 * rest.length) := by
        have whole : 256 * byte.toNat = 2 ^ (8 - bits) * (byte.toNat * 2 ^ bits) := by
          rw [Nat.mul_left_comm, Nat.pow_sub_mul_pow 2 small, Nat.mul_comm]
        rw [whole, Nat.mul_add_div (Nat.two_pow_pos _), toNat_mul_div_width small]
      rw [carryLeft_cons, toNat, length_carryLeft, ih, UInt8.toNat_ofNat', head,
        List.length_cons, width_succ, Nat.mod_mul, product, Nat.mul_add_mod,
        Nat.mul_add_div (Nat.two_pow_pos _)]
      ring

/-- Moving bits to the back divides. The bits that enter in front are those of the
byte that stood there. -/
theorem toNat_carryRight {bits : Nat} (small : bits ≤ 8) (previous : UInt8) (buffer : Bytes) :
    toNat (carryRight bits previous buffer) =
      toNat (previous :: buffer) / 2 ^ bits % 2 ^ (8 * buffer.length) := by
  induction buffer generalizing previous with
  | nil => simp [carryRight, toNat, Nat.mod_one]
  | cons byte rest ih =>
      have quotient : toNat (previous :: byte :: rest) / 2 ^ bits / 2 ^ (8 * rest.length) =
          (256 * previous.toNat + byte.toNat) / 2 ^ bits := by
        have front := toNat_append_div [previous, byte] rest
        rw [Nat.div_div_eq_div_mul, Nat.mul_comm, ← Nat.div_div_eq_div_mul]
        simp only [List.cons_append, List.nil_append, toNat, List.length_cons, List.length_nil]
          at front ⊢
        rw [front]
        ring_nf
      have remainder : toNat (previous :: byte :: rest) / 2 ^ bits % 2 ^ (8 * rest.length) =
          toNat (byte :: rest) / 2 ^ bits % 2 ^ (8 * rest.length) := by
        have split : toNat (previous :: byte :: rest) =
            2 ^ bits * (2 ^ (8 * rest.length) * (previous.toNat * 2 ^ (8 - bits))) +
              toNat (byte :: rest) := by
          rw [toNat, List.length_cons, width_succ, ← Nat.pow_sub_mul_pow 2 small]
          ring
        rw [split, Nat.mul_add_div (Nat.two_pow_pos _), Nat.mul_add_mod]
      rw [carryRight_cons, toNat, length_carryRight, ih, UInt8.toNat_ofNat', List.length_cons,
        width_succ, Nat.mod_mul, quotient, remainder]
      ring

/-! ### Trims -/

theorem length_trimLeft (buffer : Bytes) (count : Nat) :
    (trimLeft buffer count).length = buffer.length - count :=
  List.length_drop

theorem length_trimRight (buffer : Bytes) (count : Nat) :
    (trimRight buffer count).length = buffer.length - count := by
  rw [trimRight, List.length_take, Nat.min_eq_left (Nat.sub_le _ _)]

/-- A trim in front leaves nothing when it is as long as the buffer. -/
theorem trimLeft_eq_nil_iff {buffer : Bytes} {count : Nat} :
    trimLeft buffer count = [] ↔ buffer.length ≤ count :=
  List.drop_eq_nil_iff

/-- A trim at the back leaves nothing when it is as long as the buffer. -/
theorem trimRight_eq_nil_iff {buffer : Bytes} {count : Nat} :
    trimRight buffer count = [] ↔ buffer.length ≤ count := by
  rw [← List.length_eq_zero_iff, length_trimRight, Nat.sub_eq_zero_iff_le]

/-! ### Shifts -/

theorem length_shiftLeft (buffer : Bytes) (count : Nat) :
    (shiftLeft buffer count).length = buffer.length := by
  simp only [shiftLeft, Bytes.fill, List.length_append, length_carryLeft, List.length_drop,
    List.length_replicate]
  omega

theorem length_shiftRight (buffer : Bytes) (count : Nat) :
    (shiftRight buffer count).length = buffer.length := by
  simp only [shiftRight, Bytes.fill, List.length_append, length_carryRight, List.length_take,
    List.length_replicate]
  omega

/-- A shift to the front multiplies by a power of two within the width of the buffer. -/
theorem toNat_shiftLeft (buffer : Bytes) (count : Nat) :
    toNat (shiftLeft buffer count) = toNat buffer * 2 ^ count % 2 ^ (8 * buffer.length) := by
  have small : count % 8 ≤ 8 := Nat.le_of_lt (Nat.mod_lt count (by decide))
  have power : 2 ^ count = 2 ^ (count % 8) * 2 ^ (8 * (count / 8)) := by
    rw [← Nat.pow_add, Nat.mod_add_div]
  rw [shiftLeft, toNat_append, toNat_fill_zero, Nat.add_zero, toNat_carryLeft small, toNat_drop,
    List.length_drop, Bytes.fill, List.length_replicate, Nat.mod_mul_mod]
  by_cases inside : count / 8 ≤ buffer.length
  · have width : 2 ^ (8 * buffer.length) =
        2 ^ (8 * (buffer.length - count / 8)) * 2 ^ (8 * (count / 8)) := by
      rw [← Nat.pow_add, ← Nat.mul_add, Nat.sub_add_cancel inside]
    rw [Nat.min_eq_left inside, power, width, ← Nat.mul_assoc, Nat.mul_mod_mul_right,
      Nat.mul_comm]
  · -- The whole buffer is shifted out.
    have outside : buffer.length ≤ count / 8 := Nat.le_of_not_le inside
    have multiple : 2 ^ (8 * buffer.length) ∣ toNat buffer * 2 ^ count := by
      apply Nat.dvd_mul_left_of_dvd
      exact Nat.pow_dvd_pow 2 (by omega)
    rw [Nat.sub_eq_zero_of_le outside, Nat.mul_zero, Nat.pow_zero, Nat.mod_one, Nat.mul_zero,
      Nat.mod_eq_zero_of_dvd multiple]

/-- A shift to the back divides by a power of two. -/
theorem toNat_shiftRight (buffer : Bytes) (count : Nat) :
    toNat (shiftRight buffer count) = toNat buffer / 2 ^ count := by
  have small : count % 8 ≤ 8 := Nat.le_of_lt (Nat.mod_lt count (by decide))
  let kept := buffer.take (buffer.length - count / 8)
  have zero : toNat (0 :: kept) = toNat kept := by simp [toNat]
  have narrow : toNat kept / 2 ^ (count % 8) < 2 ^ (8 * kept.length) :=
    Nat.lt_of_le_of_lt (Nat.div_le_self _ _) (toNat_lt kept)
  rw [shiftRight, toNat_append, toNat_fill_zero, Nat.mul_zero, Nat.zero_add,
    toNat_carryRight small, zero, Nat.mod_eq_of_lt narrow, toNat_take]
  by_cases inside : count / 8 ≤ buffer.length
  · rw [Nat.sub_sub_self inside, Nat.div_div_eq_div_mul, ← Nat.pow_add, Nat.div_add_mod]
  · have outside : buffer.length ≤ count / 8 := Nat.le_of_not_le inside
    have vanishes : toNat buffer < 2 ^ count :=
      Nat.lt_of_lt_of_le (toNat_lt buffer) (Nat.pow_le_pow_right (by decide) (by omega))
    rw [Nat.sub_eq_zero_of_le outside, Nat.sub_zero, Nat.div_eq_of_lt (toNat_lt buffer),
      Nat.zero_div, Nat.div_eq_of_lt vanishes]

/-- A shift to the front leaves only zeros when the multiplication leaves the width. -/
theorem shiftLeft_eq_fill_iff {buffer : Bytes} {count : Nat} :
    shiftLeft buffer count = Bytes.fill buffer.length 0 ↔
      2 ^ (8 * buffer.length) ∣ toNat buffer * 2 ^ count := by
  have zero := @toNat_eq_zero_iff (shiftLeft buffer count)
  rwa [length_shiftLeft, toNat_shiftLeft, ← Nat.dvd_iff_mod_eq_zero, Iff.comm] at zero

/-- A shift to the back leaves only zeros when the quotient is zero. -/
theorem shiftRight_eq_fill_iff {buffer : Bytes} {count : Nat} :
    shiftRight buffer count = Bytes.fill buffer.length 0 ↔ toNat buffer < 2 ^ count := by
  have zero := @toNat_eq_zero_iff (shiftRight buffer count)
  rwa [length_shiftRight, toNat_shiftRight, Nat.div_eq_zero_iff_lt (Nat.two_pow_pos count),
    Iff.comm] at zero

theorem coprime_two_pow {number : Nat} (odd : number % 2 = 1) (exponent : Nat) :
    Nat.Coprime (2 ^ exponent) number :=
  Nat.Coprime.pow_left exponent (Nat.coprime_two_left.mpr (Nat.odd_iff.mpr odd))

/-- Shifts to the front by two counts agree only where nothing is left. -/
theorem shiftLeft_eq_fill_of_eq {buffer : Bytes} {few many : Nat} (fewer : few < many)
    (same : shiftLeft buffer few = shiftLeft buffer many) :
    shiftLeft buffer few = Bytes.fill buffer.length 0 := by
  obtain ⟨more, rfl⟩ : ∃ more, many = few + (more + 1) := Nat.exists_eq_add_of_lt fewer
  have residues := congrArg toNat same
  rw [toNat_shiftLeft, toNat_shiftLeft, Nat.pow_add, ← Nat.mul_assoc] at residues
  have multiple : 2 ^ (8 * buffer.length) ∣ toNat buffer * 2 ^ few * (2 ^ (more + 1) - 1) := by
    rw [Nat.mul_sub_one]
    exact Nat.dvd_of_mod_eq_zero (Nat.sub_mod_eq_zero_of_mod_eq residues.symm)
  have odd : (2 ^ (more + 1) - 1) % 2 = 1 := by
    have := Nat.two_pow_pos more
    rw [Nat.pow_succ]
    omega
  exact shiftLeft_eq_fill_iff.mpr ((coprime_two_pow odd _).dvd_of_dvd_mul_right multiple)

/-- Shifts to the back by two counts agree only where nothing is left. -/
theorem shiftRight_eq_fill_of_eq {buffer : Bytes} {few many : Nat} (fewer : few < many)
    (same : shiftRight buffer few = shiftRight buffer many) :
    shiftRight buffer few = Bytes.fill buffer.length 0 := by
  obtain ⟨more, rfl⟩ : ∃ more, many = few + (more + 1) := Nat.exists_eq_add_of_lt fewer
  have quotients := congrArg toNat same
  rw [toNat_shiftRight, toNat_shiftRight, Nat.pow_add, ← Nat.div_div_eq_div_mul] at quotients
  have zero : toNat buffer / 2 ^ few = 0 := by
    by_contra nonzero
    have smaller : toNat buffer / 2 ^ few / 2 ^ (more + 1) < toNat buffer / 2 ^ few :=
      Nat.div_lt_self (Nat.pos_of_ne_zero nonzero) (Nat.one_lt_two_pow (Nat.succ_ne_zero more))
    exact absurd quotients (Nat.ne_of_gt smaller)
  exact shiftRight_eq_fill_iff.mpr ((Nat.div_eq_zero_iff_lt (Nat.two_pow_pos few)).mp zero)

/-- The last bit of a buffer does not leave it before the count reaches the width. -/
theorem shiftLeft_ne_fill_of_odd {buffer : Bytes} (odd : toNat buffer % 2 = 1) {count : Nat}
    (few : count < 8 * buffer.length) :
    shiftLeft buffer count ≠ Bytes.fill buffer.length 0 := by
  intro zeros
  have divides := (coprime_two_pow odd _).dvd_of_dvd_mul_left (shiftLeft_eq_fill_iff.mp zeros)
  exact absurd (Nat.pow_dvd_pow_iff_le_right'.mp divides) (Nat.not_le_of_lt few)

/-- The last byte decides whether a buffer holds an odd integer. -/
theorem toNat_fill_mod_two {length : Nat} (nonempty : 0 < length) (byte : UInt8) :
    toNat (Bytes.fill length byte) % 2 = byte.toNat % 2 := by
  obtain ⟨length, rfl⟩ := Nat.exists_eq_add_one.mpr nonempty
  have last := toNat_append (Bytes.fill length byte) [byte]
  rw [Bytes.fill, ← List.replicate_succ', toNat_singleton, List.length_singleton] at last
  rw [Bytes.fill, last]
  omega

/-- A buffer of ones holds the greatest integer of its width. -/
theorem toNat_fill_max (length : Nat) : toNat (Bytes.fill length 255) + 1 = 2 ^ (8 * length) := by
  induction length with
  | zero => rfl
  | succ length ih =>
      rw [Bytes.fill] at ih
      rw [Bytes.fill, List.replicate_succ, toNat, List.length_replicate, Nat.add_assoc, ih,
        width_succ]
      have max : (255 : UInt8).toNat = 255 := rfl
      rw [max]
      ring

/-- A shift is the shift of an integer of fixed width: the length stays, the
integer is multiplied within the width or divided, and so every bit moves by the
count or falls off, and zeros enter. -/
theorem toNat_shift (buffer : Bytes) (count : Nat) :
    (shiftLeft buffer count).length = buffer.length ∧
      (shiftRight buffer count).length = buffer.length ∧
      toNat (shiftLeft buffer count) = toNat buffer * 2 ^ count % 2 ^ (8 * buffer.length) ∧
      toNat (shiftRight buffer count) = toNat buffer / 2 ^ count ∧
      ∀ place < 8 * buffer.length,
        (toNat (shiftLeft buffer count)).testBit place =
            (decide (count ≤ place) && (toNat buffer).testBit (place - count)) ∧
          (toNat (shiftRight buffer count)).testBit place =
            (toNat buffer).testBit (place + count) := by
  refine ⟨length_shiftLeft buffer count, length_shiftRight buffer count,
    toNat_shiftLeft buffer count, toNat_shiftRight buffer count, fun place inside => ⟨?_, ?_⟩⟩
  · rw [toNat_shiftLeft, Nat.testBit_mod_two_pow, Nat.mul_comm (toNat buffer),
      Nat.testBit_two_pow_mul, decide_eq_true inside, Bool.true_and]
  · rw [toNat_shiftRight, Nat.testBit_div_two_pow, Nat.add_comm]

end Juxta.Buffer
