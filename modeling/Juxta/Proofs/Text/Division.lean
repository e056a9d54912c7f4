/-
# The one division of a byte string

The well-formed pieces of a byte string are the encodings of single characters,
and no encoding is the start of another. Ill-formed text is cut where it cannot
go on: behind the last byte that could still have led to an encoding, or behind
a byte that starts none. These rules know no table of bytes. They leave every
byte string exactly one division, and the table of lead bytes finds it.
-/

import Juxta.Proofs.Text.Bytes
import Juxta.Proofs.Text.Utf8

namespace Juxta.Utf8

/-- The start of an encoding, or a whole one. -/
def IsStart (bytes : Bytes) : Prop := ∃ char, bytes <+: String.utf8EncodeChar char

/-- A piece of ill-formed text that ends where it must before the bytes behind
it. Either it is an encoding that lacks some bytes, and the next byte is not one
of them; or it is one byte that starts no encoding. -/
inductive IsMaximalIllFormed : (piece rest : Bytes) → Prop
  | truncated {piece rest : Bytes} {char : Char} (nonempty : piece ≠ [])
      (starts : piece <+: String.utf8EncodeChar char)
      (proper : piece ≠ String.utf8EncodeChar char)
      (ends : ∀ byte ∈ rest.head?, ¬ IsStart (piece ++ [byte])) : IsMaximalIllFormed piece rest
  | stray {byte : UInt8} (rest : Bytes) (starts : ¬ IsStart [byte]) :
      IsMaximalIllFormed [byte] rest

/-- Whether a segment ends where it must before the bytes behind it. -/
def Segment.IsCut (segment : Segment) (rest : Bytes) : Prop :=
  match segment with
  | scalar _ => True
  | illFormed piece => IsMaximalIllFormed piece rest

/-- A division of a byte string into segments that all end where they must. -/
inductive IsDivision : List Segment → Bytes → Prop
  | nil : IsDivision [] []
  | cons {segment : Segment} {later : List Segment} {rest : Bytes} (cut : segment.IsCut rest)
      (division : IsDivision later rest) : IsDivision (segment :: later) (segment.bytes ++ rest)

section Uniqueness

theorem IsStart.beginning {part bytes : Bytes} (starts : IsStart bytes)
    (isPrefix : part <+: bytes) : IsStart part := by
  obtain ⟨char, within⟩ := starts
  exact ⟨char, isPrefix.trans within⟩

/-- No encoding is the start of another. -/
theorem utf8EncodeChar_prefixFree {first second : Char}
    (isPrefix : String.utf8EncodeChar first <+: String.utf8EncodeChar second) : first = second := by
  obtain ⟨rest, whole⟩ := isPrefix
  have decoded : ((String.utf8EncodeChar second).toByteArray ++ ByteArray.empty).utf8DecodeChar? 0 =
      some second := ByteArray.utf8DecodeChar?_utf8EncodeChar_append
  rw [ByteArray.append_empty, ← whole, List.toByteArray_append,
    ByteArray.utf8DecodeChar?_utf8EncodeChar_append] at decoded
  exact Option.some.inj decoded

theorem Segment.IsCut.bytes_ne_nil {segment : Segment} {rest : Bytes} (cut : segment.IsCut rest) :
    segment.bytes ≠ [] := by
  cases segment with
  | scalar char => exact String.utf8EncodeChar_ne_nil
  | illFormed piece =>
      cases cut with
      | truncated nonempty => exact nonempty
      | stray => exact List.cons_ne_nil _ _

/-- A segment that ends where it must is the start of an encoding or a stray byte. -/
theorem Segment.IsCut.isStart_or_stray {segment : Segment} {rest : Bytes}
    (cut : segment.IsCut rest) :
    IsStart segment.bytes ∨ ∃ byte, segment = illFormed [byte] ∧ ¬ IsStart [byte] := by
  cases segment with
  | scalar char => exact .inl ⟨char, List.prefix_refl _⟩
  | illFormed piece =>
      cases cut with
      | truncated _ starts => exact .inl ⟨_, starts⟩
      | stray _ startsNone => exact .inr ⟨_, rfl, startsNone⟩

/-- Of two segments that start at one place and end where they must, none is a
proper part of the other. -/
theorem Segment.IsCut.eq_of_longer {segment segment' : Segment} {more rest : Bytes}
    (cut : segment.IsCut (more ++ rest)) (cut' : segment'.IsCut rest)
    (longer : segment'.bytes = segment.bytes ++ more) : segment = segment' := by
  have starts : segment.bytes <+: segment'.bytes := ⟨more, longer.symm⟩
  cases segment with
  | scalar char =>
      cases segment' with
      | scalar char' => rw [utf8EncodeChar_prefixFree starts]
      | illFormed piece =>
          cases cut' with
          | truncated _ within proper =>
              cases utf8EncodeChar_prefixFree (starts.trans within)
              exact absurd (within.eq_of_length_le starts.length_le) proper
          | @stray byte _ startsNone =>
              have nonempty := List.length_pos_iff.mpr (String.utf8EncodeChar_ne_nil (c := char))
              have same : String.utf8EncodeChar char = [byte] := starts.eq_of_length_le nonempty
              exact absurd ⟨char, [], same.symm⟩ startsNone
  | illFormed piece =>
      cases cut with
      | stray _ startsNone =>
          rcases cut'.isStart_or_stray with isStart | ⟨byte', rfl, _⟩
          · exact absurd (isStart.beginning starts) startsNone
          · cases longer
            rfl
      | truncated nonempty within proper ends =>
          cases more with
          | nil =>
              rw [List.append_nil] at longer
              cases segment' with
              | scalar char' =>
                  cases longer
                  cases utf8EncodeChar_prefixFree within
                  exact absurd rfl proper
              | illFormed piece' =>
                  cases longer
                  rfl
          | cons byte later =>
              -- The longer segment goes on with a byte that the shorter one ends before.
              have goesOn : piece ++ [byte] <+: segment'.bytes := by
                rw [longer]
                exact ⟨later, List.append_assoc ..⟩
              rcases cut'.isStart_or_stray with isStart | ⟨byte', rfl, _⟩
              · exact absurd (isStart.beginning goesOn) (ends byte rfl)
              · have short := goesOn.length_le
                have pos := List.length_pos_iff.mpr nonempty
                simp only [List.length_append, List.length_singleton, bytes] at short
                omega

/-- There is at most one division. -/
theorem IsDivision.unique {segments segments' : List Segment} {whole : Bytes}
    (division : IsDivision segments whole) (division' : IsDivision segments' whole) :
    segments = segments' := by
  induction division generalizing segments' with
  | nil =>
      generalize empty : [] = whole at division'
      cases division' with
      | nil => rfl
      | cons cut _ => exact absurd (List.append_eq_nil_iff.mp empty.symm).1 cut.bytes_ne_nil
  | @cons segment later rest cut division ih =>
      generalize same : segment.bytes ++ rest = whole at division'
      cases division' with
      | nil => exact absurd (List.append_eq_nil_iff.mp same).1 cut.bytes_ne_nil
      | @cons segment' later' rest' cut' division' =>
          have first : segment = segment' := by
            rcases List.append_eq_append_iff.mp same with
              ⟨more, longer, rfl⟩ | ⟨more, longer, rfl⟩
            · exact cut.eq_of_longer cut' longer
            · exact (cut'.eq_of_longer cut longer).symm
          subst first
          cases List.append_cancel_left same
          rw [ih division']

end Uniqueness

section Table

theorem continuation_cons {more : Nat} {low high byte : UInt8} (isLow : low ≤ byte)
    (isHigh : byte ≤ high) (rest : Bytes) :
    continuation (more + 1) low high (byte :: rest) =
      byte :: continuation more 0x80 0xbf rest := by
  rw [continuation, if_pos (by simp [isLow, isHigh])]

/-- What goes on in one text goes on in every text that starts alike. -/
theorem prefix_continuation {more : Nat} {low high : UInt8} {part full : Bytes}
    (isPrefix : part <+: full) (allowed : continuation more low high full = full) (later : Bytes) :
    part <+: continuation more low high (part ++ later) := by
  induction part generalizing more low high full with
  | nil => exact List.nil_prefix
  | cons byte part ih =>
      obtain ⟨rest, rfl⟩ := isPrefix
      cases more with
      | zero => cases allowed
      | succ more =>
          simp only [List.cons_append, continuation] at allowed ⊢
          split at allowed
          next inRange =>
            rw [if_pos inRange, List.prefix_cons_inj]
            exact ih (List.prefix_append part rest) (List.cons.inj allowed).2
          next => cases allowed

/-- A run of continuation bytes can be completed to the announced length. -/
theorem exists_completion (more : Nat) {low high : UInt8} (nonempty : low ≤ high)
    (rest : Bytes) :
    ∃ full, continuation more low high rest <+: full ∧ full.length = more ∧
      continuation more low high full = full := by
  have wide : (0x80 : UInt8) ≤ 0xbf := by decide
  induction more generalizing low high rest with
  | zero => exact ⟨[], by simp [continuation], rfl, by simp [continuation]⟩
  | succ more ih =>
      by_cases goesOn : ∃ byte later, rest = byte :: later ∧ low ≤ byte ∧ byte ≤ high
      · obtain ⟨byte, later, rfl, isLow, isHigh⟩ := goesOn
        obtain ⟨full, isPrefix, length, allowed⟩ := ih wide later
        refine ⟨byte :: full, ?_, by rw [List.length_cons, length], ?_⟩
        · rw [continuation_cons isLow isHigh, List.prefix_cons_inj]
          exact isPrefix
        · rw [continuation_cons isLow isHigh, allowed]
      · obtain ⟨full, -, length, allowed⟩ := ih wide []
        refine ⟨low :: full, ?_, by rw [List.length_cons, length], ?_⟩
        · have stops : continuation (more + 1) low high rest = [] := by
            cases rest with
            | nil => rfl
            | cons byte later =>
                rw [continuation, if_neg]
                intro inRange
                exact goesOn ⟨byte, later, rfl, by simpa using inRange⟩
          rw [stops]
          exact List.nil_prefix
        · rw [continuation_cons (UInt8.le_refl low) nonempty, allowed]

theorem lead?_two : ∀ byte : UInt8, 0xc2 ≤ byte.toNat ∧ byte.toNat ≤ 0xdf →
    lead? byte = some ⟨1, 0x80, 0xbf⟩ :=
  forall_byte (by decide +kernel)

theorem lead?_three : ∀ byte : UInt8, 0xe0 ≤ byte.toNat ∧ byte.toNat ≤ 0xef →
    lead? byte =
      some ⟨2, if byte = 0xe0 then 0xa0 else 0x80, if byte = 0xed then 0x9f else 0xbf⟩ :=
  forall_byte (by decide +kernel)

theorem lead?_four : ∀ byte : UInt8, 0xf0 ≤ byte.toNat ∧ byte.toNat ≤ 0xf4 →
    lead? byte =
      some ⟨3, if byte = 0xf0 then 0x90 else 0x80, if byte = 0xf4 then 0x8f else 0xbf⟩ :=
  forall_byte (by decide +kernel)

theorem low_le_high_of_lead? : ∀ byte : UInt8, ∀ lead ∈ lead? byte,
    lead.low ≤ lead.high :=
  forall_byte (by decide +kernel)

theorem continuation_eq_self {more : Nat} {low high byte : UInt8} {rest : Bytes}
    (length : (byte :: rest).length = more) (isLow : low ≤ byte) (isHigh : byte ≤ high)
    (wide : ∀ later ∈ rest, 0x80 ≤ later ∧ later ≤ 0xbf) :
    continuation more low high (byte :: rest) = byte :: rest := by
  induction rest generalizing more low high byte with
  | nil =>
      subst length
      rw [List.length_singleton, continuation_cons isLow isHigh, continuation]
  | cons next rest ih =>
      subst length
      obtain ⟨inRange, wide⟩ := List.forall_mem_cons.mp wide
      rw [List.length_cons, continuation_cons isLow isHigh, ih rfl inRange.1 inRange.2 wide]

theorem toNat_ofNat_of_lt {value : Nat} (bound : value < 256) :
    (UInt8.ofNat value).toNat = value := by
  rw [UInt8.toNat_ofNat']
  exact Nat.mod_eq_of_lt bound

theorem narrowed_le {byte mark narrow usual second : UInt8} (general : usual ≤ second)
    (special : byte.toNat = mark.toNat → narrow ≤ second) :
    (if byte = mark then narrow else usual) ≤ second := by
  split
  next same => exact special (congrArg UInt8.toNat same)
  next => exact general

theorem le_narrowed {byte mark narrow usual second : UInt8} (general : second ≤ usual)
    (special : byte.toNat = mark.toNat → second ≤ narrow) :
    second ≤ (if byte = mark then narrow else usual) := by
  split
  next same => exact special (congrArg UInt8.toNat same)
  next => exact general

/-- The bytes of a character are one ASCII byte, or a lead byte with as many
continuation bytes as it announces, the first of them in the announced range. -/
theorem utf8EncodeChar_cases (char : Char) :
    (∃ byte, byte < 0x80 ∧ String.utf8EncodeChar char = [byte]) ∨
      ∃ byte lead tail, String.utf8EncodeChar char = byte :: tail ∧ lead? byte = some lead ∧
        tail.length = lead.more ∧ continuation lead.more lead.low lead.high tail = tail := by
  have valid : char.val.toNat.isValidChar := char.valid
  simp only [String.utf8EncodeChar]
  generalize char.val.toNat = point at valid
  have later (value : Nat) : (UInt8.ofNat (value % 64 + 128)).toNat = value % 64 + 128 :=
    toNat_ofNat_of_lt (by omega)
  have low (value : Nat) : 0x80 ≤ UInt8.ofNat (value % 64 + 128) := by
    rw [UInt8.le_iff_toNat_le, later]
    exact Nat.le_add_left 128 _
  have high (value : Nat) : UInt8.ofNat (value % 64 + 128) ≤ 0xbf := by
    rw [UInt8.le_iff_toNat_le, later]
    show value % 64 + 128 ≤ 191
    omega
  split
  next one =>
    refine .inl ⟨_, ?_, rfl⟩
    rw [UInt8.lt_iff_toNat_lt, toNat_ofNat_of_lt (by omega)]
    exact Nat.lt_succ_of_le one
  right
  split
  next two =>
    have lead := toNat_ofNat_of_lt (show point / 64 % 32 + 192 < 256 by omega)
    refine ⟨_, _, _, rfl, lead?_two _ (by omega), rfl, ?_⟩
    exact continuation_eq_self rfl (low _) (high _) (by simp)
  split
  next three =>
    have lead := toNat_ofNat_of_lt (show point / 4096 % 16 + 224 < 256 by omega)
    refine ⟨_, _, _, rfl, lead?_three _ (by omega), rfl, ?_⟩
    apply continuation_eq_self
    · rfl
    · apply narrowed_le (low _)
      intro isLead
      have overlong : point / 4096 % 16 + 224 = 224 := lead.symm.trans isLead
      rw [UInt8.le_iff_toNat_le, later]
      show 160 ≤ point / 64 % 64 + 128
      omega
    · apply le_narrowed (high _)
      intro isLead
      have surrogate : point / 4096 % 16 + 224 = 237 := lead.symm.trans isLead
      rw [UInt8.le_iff_toNat_le, later]
      show point / 64 % 64 + 128 ≤ 159
      rcases valid with below | beyond <;> omega
    · exact List.forall_mem_singleton.mpr ⟨low _, high _⟩
  next four =>
    have bound : point < 1114112 := by rcases valid with below | beyond <;> omega
    have lead := toNat_ofNat_of_lt (show point / 262144 % 8 + 240 < 256 by omega)
    refine ⟨_, _, _, rfl, lead?_four _ (by omega), rfl, ?_⟩
    apply continuation_eq_self
    · rfl
    · apply narrowed_le (low _)
      intro isLead
      have overlong : point / 262144 % 8 + 240 = 240 := lead.symm.trans isLead
      rw [UInt8.le_iff_toNat_le, later]
      show 144 ≤ point / 4096 % 64 + 128
      omega
    · apply le_narrowed (high _)
      intro isLead
      have beyond : point / 262144 % 8 + 240 = 244 := lead.symm.trans isLead
      rw [UInt8.le_iff_toNat_le, later]
      show point / 4096 % 64 + 128 ≤ 143
      omega
    · exact List.forall_mem_cons.mpr
        ⟨⟨low _, high _⟩, List.forall_mem_singleton.mpr ⟨low _, high _⟩⟩

end Table

section Segments

theorem not_isStart_of_lead?_eq_none {byte : UInt8} (ascii : ¬ byte < 0x80)
    (startsNone : lead? byte = none) : ¬ IsStart [byte] := by
  rintro ⟨char, within⟩
  rcases utf8EncodeChar_cases char with
    ⟨first, isAscii, encoded⟩ | ⟨first, lead, tail, encoded, announced, _⟩
  · rw [encoded, List.cons_prefix_cons] at within
    exact ascii (within.1 ▸ isAscii)
  · rw [encoded, List.cons_prefix_cons] at within
    rw [within.1, announced] at startsNone
    cases startsNone

/-- A lead byte whose continuation stops too early is cut where it stops. -/
theorem isMaximalIllFormed_of_lead? {byte : UInt8} {lead : Lead} {rest : Bytes}
    (announced : lead? byte = some lead)
    (incomplete : (continuation lead.more lead.low lead.high rest).length ≠ lead.more) :
    IsMaximalIllFormed (byte :: continuation lead.more lead.low lead.high rest)
      (rest.drop (continuation lead.more lead.low lead.high rest).length) := by
  have cover := continuation_append_drop lead.more lead.low lead.high rest
  obtain ⟨full, isPrefix, length, allowed⟩ :=
    exists_completion lead.more (low_le_high_of_lead? byte lead announced) rest
  have encoded := utf8EncodeChar_codePoint announced (allowed.symm ▸ length)
  rw [allowed] at encoded
  have starts : byte :: continuation lead.more lead.low lead.high rest <+:
      String.utf8EncodeChar (Char.ofNat (codePoint byte full)) := by
    rw [encoded, List.prefix_cons_inj]
    exact isPrefix
  apply IsMaximalIllFormed.truncated (List.cons_ne_nil _ _) starts
  · rw [encoded]
    intro same
    exact incomplete ((List.cons.inj same).2 ▸ length)
  · rintro next isNext ⟨char, within⟩
    obtain ⟨later, behind⟩ := List.head?_eq_some_iff.mp isNext
    rcases utf8EncodeChar_cases char with
      ⟨first, _, whole⟩ | ⟨first, other, tail, whole, announced', _, allowed'⟩
    · have short := within.length_le
      simp [whole] at short
    · rw [whole, List.cons_append, List.cons_prefix_cons] at within
      obtain ⟨rfl, within⟩ := within
      cases announced.symm.trans announced'
      -- With the next byte the continuation would be longer than it is.
      have goesOn := prefix_continuation within allowed' later
      rw [List.append_assoc, List.singleton_append, ← behind, cover] at goesOn
      have short := goesOn.length_le
      rw [List.length_append, List.length_singleton] at short
      exact Nat.not_succ_le_self _ short

theorem isCut_first (byte : UInt8) (rest : Bytes) :
    (first byte rest).1.IsCut (rest.drop (first byte rest).2) := by
  rw [first]
  by_cases ascii : byte < 0x80
  · rw [if_pos ascii]
    exact trivial
  rw [if_neg ascii]
  cases announced : lead? byte with
  | none => exact .stray _ (not_isStart_of_lead?_eq_none ascii announced)
  | some lead =>
      by_cases complete : (continuation lead.more lead.low lead.high rest).length = lead.more
      · simp only [complete, if_true]
        exact trivial
      · simp only [complete, if_false]
        exact isMaximalIllFormed_of_lead? announced complete

theorem isDivision_segmentsFrom (covered : Nat) (bytes : Bytes) :
    IsDivision (segmentsFrom covered bytes) (bytes.drop covered) := by
  fun_induction segmentsFrom covered bytes with
  | case1 =>
      rw [List.drop_nil]
      exact .nil
  | case2 covered byte rest ih => exact ih
  | case3 byte rest ih =>
      rw [List.drop_zero, ← bytes_first_append_drop byte rest]
      exact .cons (isCut_first byte rest) ih

/-- The segments of a byte string are its division. -/
theorem isDivision_segments (bytes : Bytes) : IsDivision (segments bytes) bytes :=
  isDivision_segmentsFrom 0 bytes

/-- Encoded characters are divided into these characters. -/
theorem segments_encode (chars : List Char) : segments (encode chars) = chars.map .scalar := by
  have division : IsDivision (chars.map .scalar) (encode chars) := by
    induction chars with
    | nil => exact .nil
    | cons char rest ih => exact .cons trivial ih
  exact (isDivision_segments _).unique division

end Segments

end Juxta.Utf8
