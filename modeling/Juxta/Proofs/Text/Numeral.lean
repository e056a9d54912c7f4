/-
# Numerals read back

The numeral of a natural number is a run of digits without a leading zero, and
the number that this run spells is the number it was made from. So the numerals
of integers read back, and they can be told from what is written behind them if
that does not start with a digit.
-/

import Juxta.Text.Numeral

namespace Juxta.Numeral

theorem toNat_toUInt8_of_isDigit {char : Char} (digit : char.isDigit) :
    char.toUInt8.toNat = char.toNat := by
  have range : 48 ≤ char.toNat ∧ char.toNat ≤ 57 := Char.isDigit_iff_toNat.mp digit
  have wrapped : char.toUInt8.toNat = char.toNat % 256 := rfl
  omega

theorem isDigit_of_mem_ofNat {number : Nat} {byte : UInt8} (mem : byte ∈ ofNat number) :
    Ascii.isDigit byte := by
  obtain ⟨char, inside, rfl⟩ := List.mem_map.mp mem
  have digit := Nat.isDigit_of_mem_toDigits (by decide) (by decide) inside
  have range : 48 ≤ char.toNat ∧ char.toNat ≤ 57 := Char.isDigit_iff_toNat.mp digit
  have same := toNat_toUInt8_of_isDigit digit
  rw [Ascii.isDigit, Bool.and_eq_true, decide_eq_true_eq, decide_eq_true_eq,
    UInt8.le_iff_toNat_le, UInt8.le_iff_toNat_le, same]
  exact range

theorem ofNat_ne_nil (number : Nat) : ofNat number ≠ [] := by
  rw [ofNat, ne_eq, List.map_eq_nil_iff]
  exact Nat.toDigits_ne_nil

theorem digitsValue_map_toUInt8 {chars : List Char} (digits : ∀ char ∈ chars, char.isDigit) :
    digitsValue (chars.map Char.toUInt8) = Nat.ofDigitChars 10 chars 0 := by
  rw [digitsValue, Nat.ofDigitChars_eq_foldl, List.foldl_map]
  generalize 0 = value
  induction chars generalizing value with
  | nil => rfl
  | cons char rest ih =>
      have same := toNat_toUInt8_of_isDigit (digits char (by simp))
      rw [List.foldl_cons, List.foldl_cons, Ascii.digitValue, same]
      exact ih (fun other mem => digits other (by simp [mem])) _

theorem digitsValue_ofNat (number : Nat) : digitsValue (ofNat number) = number := by
  rw [ofNat, digitsValue_map_toUInt8, Nat.ofDigitChars_ten_toDigits]
  intro char mem
  exact Nat.isDigit_of_mem_toDigits (by decide) (by decide) mem

theorem isDigit_or_minus_of_mem_ofInt {number : Int} {byte : UInt8} (mem : byte ∈ ofInt number) :
    Ascii.isDigit byte ∨ byte = Ascii.minus := by
  cases number with
  | ofNat number => exact .inl (isDigit_of_mem_ofNat mem)
  | negSucc number =>
      rcases List.mem_cons.mp mem with minus | inside
      · exact .inr minus
      · exact .inl (isDigit_of_mem_ofNat inside)

theorem ne_of_isDigit_or_minus {byte : UInt8} (part : Ascii.isDigit byte ∨ byte = Ascii.minus)
    {marks : Bytes} (others : marks.all fun mark => !(Ascii.isDigit mark || mark == Ascii.minus)) :
    ∀ mark ∈ marks, byte ≠ mark := by
  rintro mark mem rfl
  have other := List.all_eq_true.mp others byte mem
  rcases part with digit | rfl
  · simp [digit] at other
  · cases other

theorem ofInt_ne_nil (number : Int) : ofInt number ≠ [] := by
  cases number with
  | ofNat number => exact ofNat_ne_nil number
  | negSucc number => exact List.cons_ne_nil _ _

theorem readNat?_of_digits {digits : Bytes} (nonempty : digits ≠ [])
    (allDigits : ∀ byte ∈ digits, Ascii.isDigit byte) :
    readNat? digits = some (digitsValue digits) := by
  rw [readNat?, if_pos]
  simpa using ⟨nonempty, allDigits⟩

theorem readInt?_of_digits {digits : Bytes} (nonempty : digits ≠ [])
    (allDigits : ∀ byte ∈ digits, Ascii.isDigit byte) :
    readInt? digits = some (digitsValue digits) := by
  have read := readNat?_of_digits nonempty allDigits
  cases digits with
  | nil => exact absurd rfl nonempty
  | cons first rest =>
      have noSign : first ≠ Ascii.minus ∧ first ≠ Ascii.plus := by
        have isDigit := allDigits first List.mem_cons_self
        constructor <;>
          · rintro rfl
            cases isDigit
      rw [readInt?, if_neg noSign.1, if_neg noSign.2, read]
      rfl

theorem readInt?_ofInt (number : Int) : readInt? (ofInt number) = some number := by
  cases number with
  | ofNat number =>
      rw [ofInt, readInt?_of_digits (ofNat_ne_nil number) fun _ => isDigit_of_mem_ofNat,
        digitsValue_ofNat]
      rfl
  | negSucc number =>
      rw [ofInt, readInt?, if_pos rfl,
        readNat?_of_digits (ofNat_ne_nil _) fun _ => isDigit_of_mem_ofNat, digitsValue_ofNat]
      rfl

/-- The numeral of a positive number has no leading zero. -/
theorem head?_ofNat_ne_zero {number : Nat} (pos : 0 < number) :
    (ofNat number).head? ≠ some Ascii.zero := by
  induction number using Nat.strongRecOn with
  | ind number ih =>
      by_cases small : number < 10
      · have digits : ∀ digit < 10, 0 < digit →
            [digit.digitChar.toUInt8].head? ≠ some Ascii.zero := by decide
        rw [ofNat, Nat.toDigits_of_lt_base small]
        exact digits number small pos
      · have shorter := ih (number / 10) (by omega) (by omega)
        obtain ⟨first, later, digits⟩ := List.exists_cons_of_ne_nil (ofNat_ne_nil (number / 10))
        rw [ofNat, Nat.toDigits_of_base_le (by decide) (by omega), List.map_append, ← ofNat, digits]
        rwa [digits] at shorter

theorem takeWhile_isDigit_ofNat_append (number : Nat) {rest : Bytes}
    (ends : ∀ byte ∈ rest.head?, Ascii.isDigit byte = false) :
    (ofNat number ++ rest).takeWhile Ascii.isDigit = ofNat number := by
  rw [List.takeWhile_append_of_pos fun _ => isDigit_of_mem_ofNat]
  cases rest with
  | nil => exact List.append_nil _
  | cons byte rest =>
      have noDigit : ¬ Ascii.isDigit byte = true := by simp [ends byte rfl]
      rw [List.takeWhile_cons_of_neg noDigit, List.append_nil]

end Juxta.Numeral
