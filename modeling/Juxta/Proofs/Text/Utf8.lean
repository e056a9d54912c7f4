/-
# Segments cover a byte string

The segments of a byte string, written out one after the other, give the byte
string back. For an ill-formed piece there is nothing to show; a lead byte with
all its continuation bytes is the encoding of the code point read off them,
because the ranges of the lead bytes leave each code point one encoding.
-/

import Juxta.Text.Utf8

namespace Juxta.Utf8

theorem toNat_ofNat {code : Nat} (valid : code.isValidChar) :
    (Char.ofNat code).val.toNat = code := by
  rw [Char.ofNat, dif_pos valid]
  rfl

/-- A run of continuation bytes that is as long as announced has a first byte in
its range, and the run behind that byte is as long as announced too. -/
theorem exists_of_length_continuation {more : Nat} {low high : UInt8} {rest : Bytes}
    (complete : (continuation (more + 1) low high rest).length = more + 1) :
    ∃ byte later, rest = byte :: later ∧ low.toNat ≤ byte.toNat ∧ byte.toNat ≤ high.toNat ∧
      continuation (more + 1) low high rest = byte :: continuation more 0x80 0xbf later ∧
      (continuation more 0x80 0xbf later).length = more := by
  cases rest with
  | nil => cases complete
  | cons byte later =>
      rw [continuation] at complete
      split at complete
      next inRange =>
        rw [Bool.and_eq_true, decide_eq_true_eq, decide_eq_true_eq] at inRange
        refine ⟨byte, later, rfl, inRange.1, inRange.2, ?_, by simpa using complete⟩
        rw [continuation, if_pos (by simpa using inRange)]
      next => cases complete

theorem continuation_append_drop (more : Nat) (low high : UInt8) (rest : Bytes) :
    continuation more low high rest ++ rest.drop (continuation more low high rest).length =
      rest := by
  fun_induction continuation more low high rest with
  | case1 => simp
  | case2 => simp
  | case3 low high more byte rest inRange ih => simpa using ih
  | case4 => simp

theorem utf8EncodeChar_ascii {byte : UInt8} (ascii : byte < 0x80) :
    String.utf8EncodeChar (Char.ofNat byte.toNat) = [byte] := by
  have bound : byte.toNat < 128 := ascii
  rw [String.utf8EncodeChar, toNat_ofNat (.inl (by omega))]
  simp [show byte.toNat ≤ 127 by omega]

theorem ofNat_eq {value : Nat} {byte : UInt8} (same : value = byte.toNat) :
    UInt8.ofNat value = byte := by
  rw [same, UInt8.ofNat_toNat]

/-- The code points of two bytes are those from U+0080 to U+07FF. -/
theorem utf8EncodeChar_two {lead second : UInt8} (hlead : 0xc2 ≤ lead.toNat ∧ lead.toNat ≤ 0xdf)
    (hsecond : 0x80 ≤ second.toNat ∧ second.toNat ≤ 0xbf) :
    String.utf8EncodeChar (Char.ofNat (codePoint lead [second])) = [lead, second] := by
  have value : codePoint lead [second] = 64 * (lead.toNat % 32) + second.toNat % 64 := rfl
  rw [value]
  generalize code : 64 * (lead.toNat % 32) + second.toNat % 64 = point
  rw [String.utf8EncodeChar, toNat_ofNat (.inl (by omega))]
  have first : UInt8.ofNat (point / 64 % 32 + 0xc0) = lead := ofNat_eq (by omega)
  have last : UInt8.ofNat (point % 64 + 0x80) = second := ofNat_eq (by omega)
  simp only [show ¬ point ≤ 127 by omega, show point ≤ 2047 by omega, if_true, if_false, first,
    last]

/-- The code points of three bytes go on to U+FFFF and leave the surrogates out. -/
theorem utf8EncodeChar_three {lead second third : UInt8}
    (hlead : 0xe0 ≤ lead.toNat ∧ lead.toNat ≤ 0xef)
    (overlong : lead.toNat = 0xe0 → 0xa0 ≤ second.toNat)
    (surrogate : lead.toNat = 0xed → second.toNat ≤ 0x9f)
    (hsecond : 0x80 ≤ second.toNat ∧ second.toNat ≤ 0xbf)
    (hthird : 0x80 ≤ third.toNat ∧ third.toNat ≤ 0xbf) :
    String.utf8EncodeChar (Char.ofNat (codePoint lead [second, third])) =
      [lead, second, third] := by
  have value : codePoint lead [second, third] =
      64 * (64 * (lead.toNat % 16) + second.toNat % 64) + third.toNat % 64 := rfl
  rw [value]
  generalize code : 64 * (64 * (lead.toNat % 16) + second.toNat % 64) + third.toNat % 64 = point
  have valid : point.isValidChar := by
    by_cases low : point < 0xd800
    · exact .inl low
    · exact .inr ⟨by omega, by omega⟩
  rw [String.utf8EncodeChar, toNat_ofNat valid]
  have first : UInt8.ofNat (point / 4096 % 16 + 0xe0) = lead := ofNat_eq (by omega)
  have middle : UInt8.ofNat (point / 64 % 64 + 0x80) = second := ofNat_eq (by omega)
  have last : UInt8.ofNat (point % 64 + 0x80) = third := ofNat_eq (by omega)
  simp only [show ¬ point ≤ 127 by omega, show ¬ point ≤ 2047 by omega,
    show point ≤ 65535 by omega, if_true, if_false, first, middle, last]

/-- The code points of four bytes go on to U+10FFFF. -/
theorem utf8EncodeChar_four {lead second third fourth : UInt8}
    (hlead : 0xf0 ≤ lead.toNat ∧ lead.toNat ≤ 0xf4)
    (overlong : lead.toNat = 0xf0 → 0x90 ≤ second.toNat)
    (beyond : lead.toNat = 0xf4 → second.toNat ≤ 0x8f)
    (hsecond : 0x80 ≤ second.toNat ∧ second.toNat ≤ 0xbf)
    (hthird : 0x80 ≤ third.toNat ∧ third.toNat ≤ 0xbf)
    (hfourth : 0x80 ≤ fourth.toNat ∧ fourth.toNat ≤ 0xbf) :
    String.utf8EncodeChar (Char.ofNat (codePoint lead [second, third, fourth])) =
      [lead, second, third, fourth] := by
  have value : codePoint lead [second, third, fourth] =
      64 * (64 * (64 * (lead.toNat % 8) + second.toNat % 64) + third.toNat % 64) +
        fourth.toNat % 64 := rfl
  rw [value]
  generalize code : 64 * (64 * (64 * (lead.toNat % 8) + second.toNat % 64) + third.toNat % 64) +
    fourth.toNat % 64 = point
  rw [String.utf8EncodeChar, toNat_ofNat (.inr ⟨by omega, by omega⟩)]
  have first : UInt8.ofNat (point / 262144 % 8 + 0xf0) = lead := ofNat_eq (by omega)
  have upper : UInt8.ofNat (point / 4096 % 64 + 0x80) = second := ofNat_eq (by omega)
  have lower : UInt8.ofNat (point / 64 % 64 + 0x80) = third := ofNat_eq (by omega)
  have last : UInt8.ofNat (point % 64 + 0x80) = fourth := ofNat_eq (by omega)
  simp only [show ¬ point ≤ 127 by omega, show ¬ point ≤ 2047 by omega,
    show ¬ point ≤ 65535 by omega, if_false, first, upper, lower, last]

theorem low_of_narrowed {byte mark narrow second : UInt8} (inside : 0x80 ≤ narrow.toNat)
    (low : (if byte = mark then narrow else 0x80).toNat ≤ second.toNat) :
    0x80 ≤ second.toNat ∧ (byte.toNat = mark.toNat → narrow.toNat ≤ second.toNat) := by
  split at low
  next same => exact ⟨Nat.le_trans inside low, fun _ => low⟩
  next other => exact ⟨low, fun same => absurd (UInt8.toNat_inj.mp same) other⟩

theorem high_of_narrowed {byte mark narrow second : UInt8} (inside : narrow.toNat ≤ 0xbf)
    (high : second.toNat ≤ (if byte = mark then narrow else 0xbf).toNat) :
    second.toNat ≤ 0xbf ∧ (byte.toNat = mark.toNat → second.toNat ≤ narrow.toNat) := by
  split at high
  next same => exact ⟨Nat.le_trans high inside, fun _ => high⟩
  next other => exact ⟨high, fun same => absurd (UInt8.toNat_inj.mp same) other⟩

/-- A lead byte and as many continuation bytes as it announces encode their code point. -/
theorem utf8EncodeChar_codePoint {byte : UInt8} {lead : Lead} {rest : Bytes}
    (announced : lead? byte = some lead)
    (complete : (continuation lead.more lead.low lead.high rest).length = lead.more) :
    String.utf8EncodeChar (Char.ofNat (codePoint byte
      (continuation lead.more lead.low lead.high rest))) =
      byte :: continuation lead.more lead.low lead.high rest := by
  simp only [lead?, Bool.and_eq_true, decide_eq_true_eq, UInt8.le_iff_toNat_le] at announced
  split at announced
  next two =>
    cases announced
    obtain ⟨second, rest, rfl, low, high, run, -⟩ := exists_of_length_continuation complete
    rw [run]
    exact utf8EncodeChar_two two ⟨low, high⟩
  split at announced
  next three =>
    cases announced
    obtain ⟨second, rest, rfl, low, high, run, complete⟩ := exists_of_length_continuation complete
    obtain ⟨third, rest, rfl, low', high', run', -⟩ := exists_of_length_continuation complete
    rw [run, run']
    obtain ⟨low, overlong⟩ := low_of_narrowed (by decide) low
    obtain ⟨high, surrogate⟩ := high_of_narrowed (by decide) high
    exact utf8EncodeChar_three three overlong surrogate ⟨low, high⟩ ⟨low', high'⟩
  split at announced
  next four =>
    cases announced
    obtain ⟨second, rest, rfl, low, high, run, complete⟩ := exists_of_length_continuation complete
    obtain ⟨third, rest, rfl, low', high', run', complete⟩ :=
      exists_of_length_continuation complete
    obtain ⟨fourth, rest, rfl, low'', high'', run'', -⟩ := exists_of_length_continuation complete
    rw [run, run', run'']
    obtain ⟨low, overlong⟩ := low_of_narrowed (by decide) low
    obtain ⟨high, beyond⟩ := high_of_narrowed (by decide) high
    exact utf8EncodeChar_four four overlong beyond ⟨low, high⟩ ⟨low', high'⟩ ⟨low'', high''⟩
  next => cases announced

/-- The first segment covers the first byte and as many bytes after it as it counts. -/
theorem bytes_first_append_drop (byte : UInt8) (rest : Bytes) :
    (first byte rest).1.bytes ++ rest.drop (first byte rest).2 = byte :: rest := by
  rw [first]
  by_cases ascii : byte < 0x80
  · rw [if_pos ascii, Segment.bytes, utf8EncodeChar_ascii ascii]
    rfl
  rw [if_neg ascii]
  cases announced : lead? byte with
  | none => rfl
  | some lead =>
      have cover := continuation_append_drop lead.more lead.low lead.high rest
      by_cases complete : (continuation lead.more lead.low lead.high rest).length = lead.more
      · simp only [complete, if_true, Segment.bytes, utf8EncodeChar_codePoint announced complete]
        rw [complete] at cover
        rw [List.cons_append, cover]
      · simp only [complete, if_false, Segment.bytes]
        rw [List.cons_append, cover]

theorem flatMap_bytes_segmentsFrom (covered : Nat) (bytes : Bytes) :
    (segmentsFrom covered bytes).flatMap Segment.bytes = bytes.drop covered := by
  fun_induction segmentsFrom covered bytes with
  | case1 => simp
  | case2 covered byte rest ih => simpa using ih
  | case3 byte rest ih =>
      rw [List.flatMap_cons, ih, bytes_first_append_drop]
      rfl

/-- The segments of a byte string cover it without gaps or overlaps. -/
theorem flatMap_bytes_segments (bytes : Bytes) :
    (segments bytes).flatMap Segment.bytes = bytes :=
  flatMap_bytes_segmentsFrom 0 bytes

/-- The character that stands for a segment when it is printed. -/
def Segment.char : Segment → Char
  | scalar char => char
  | illFormed _ => replacement

/-- A byte string with its ill-formed pieces replaced. -/
def repaired (bytes : Bytes) : Bytes := encode ((segments bytes).map Segment.char)

/-- There is nothing to repair in UTF-8. -/
theorem repaired_of_isValid {bytes : Bytes} (valid : isValid bytes) : repaired bytes = bytes := by
  have each : ∀ segment ∈ segments bytes,
      String.utf8EncodeChar segment.char = segment.bytes := by
    intro segment mem
    have scalar := List.all_eq_true.mp valid segment mem
    cases segment with
    | scalar char => rfl
    | illFormed piece => cases scalar
  rw [repaired, encode, List.flatMap_map, List.flatMap_def, List.map_congr_left each,
    ← List.flatMap_def, flatMap_bytes_segments]

/-- The bytes of a character are its code point itself or lie beyond ASCII. -/
theorem toNat_of_mem_utf8EncodeChar {char : Char} {byte : UInt8}
    (mem : byte ∈ String.utf8EncodeChar char) :
    byte.toNat = char.toNat ∨ 0x80 ≤ byte.toNat := by
  have beyond {value : Nat} (low : 0x80 ≤ value) (high : value < 0x100) :
      0x80 ≤ (UInt8.ofNat value).toNat := by
    rw [UInt8.toNat_ofNat']
    omega
  simp only [String.utf8EncodeChar, Char.toNat_val] at mem
  split at mem
  next =>
    left
    rw [List.mem_singleton.mp mem, UInt8.toNat_ofNat']
    omega
  right
  split at mem
  next =>
    simp only [List.mem_cons, List.not_mem_nil, or_false] at mem
    rcases mem with rfl | rfl <;> exact beyond (by omega) (by omega)
  split at mem
  next =>
    simp only [List.mem_cons, List.not_mem_nil, or_false] at mem
    rcases mem with rfl | rfl | rfl <;> exact beyond (by omega) (by omega)
  next =>
    simp only [List.mem_cons, List.not_mem_nil, or_false] at mem
    rcases mem with rfl | rfl | rfl | rfl <;> exact beyond (by omega) (by omega)

end Juxta.Utf8
