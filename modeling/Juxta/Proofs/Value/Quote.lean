/-
# Quoted byte strings

A quoted byte string is made from the division of the byte string: characters
are written as they are or behind a backslash, and every ill-formed piece becomes
one replacement character. Scanning takes the backslashes away again, so that a
quoted byte string denotes the byte string with its ill-formed pieces replaced.
Quoting cannot tell the two apart.
-/

import Juxta.Proofs.Text.Division
import Juxta.Proofs.Token.Spelling

namespace Juxta

namespace Utf8

/-- A division covers its byte string, and each of its segments ends where it must. -/
theorem IsDivision.flatMap_bytes {segments : List Segment} {bytes : Bytes}
    (division : IsDivision segments bytes) : segments.flatMap Segment.bytes = bytes := by
  induction division with
  | nil => rfl
  | cons cut division ih => rw [List.flatMap_cons, ih]

theorem IsDivision.isCut {before after : List Segment} {segment : Segment} {bytes : Bytes}
    (division : IsDivision (before ++ segment :: after) bytes) :
    segment.IsCut (after.flatMap Segment.bytes) := by
  induction before generalizing bytes with
  | nil =>
      cases division with
      | cons cut division => rwa [division.flatMap_bytes]
  | cons earlier before ih =>
      cases division with
      | cons cut division => exact ih division

/-- Repaired text has nothing left to repair. -/
theorem segments_repaired (bytes : Bytes) :
    segments (repaired bytes) = (segments bytes).map fun segment => .scalar segment.char := by
  rw [repaired, segments_encode, List.map_map]
  rfl

end Utf8

namespace Value

/-- How a character is written inside quotes. -/
def escaped : Char → Bytes
  | '\\' => utf8 "\\\\"
  | '"' => utf8 "\\\""
  | '\n' => utf8 "\\n"
  | '\t' => utf8 "\\t"
  | char => String.utf8EncodeChar char

theorem quoteSegment_scalar (char : Char) : quoteSegment (.scalar char) = escaped char := by
  have differs {mark : Char} {byte : UInt8} (other : char ≠ mark)
      (isMark : mark.toNat = byte.toNat) : char.toNat ≠ byte.toNat :=
    fun same => other (Char.toNat_inj.mp (same.trans isMark.symm))
  unfold escaped
  split
  next => rfl
  next => rfl
  next => rfl
  next => rfl
  next noBackslash noQuote noNewline noTab =>
    rw [quoteSegment, if_neg (differs noBackslash rfl), if_neg (differs noQuote rfl),
      if_neg (differs noNewline rfl), if_neg (differs noTab rfl)]

theorem quoteSegment_char (segment : Utf8.Segment) :
    quoteSegment (.scalar segment.char) = quoteSegment segment := by
  cases segment with
  | scalar char => rfl
  | illFormed piece => rfl

theorem quote_repaired (bytes : Bytes) : quote (Utf8.repaired bytes) = quote bytes := by
  have same : (fun segment : Utf8.Segment => quoteSegment (.scalar segment.char)) = quoteSegment :=
    funext quoteSegment_char
  rw [quote, quote, Utf8.segments_repaired, List.flatMap_map, same]

/-- The segments that quoting cuts a byte string into cover it, and what stands
between the quotes is what they become one by one. Each of them is a character,
which is written as itself or escaped, or it becomes one replacement character
and is a maximal ill-formed piece before the bytes of the segments behind it. -/
theorem quote_segments_isCut (bytes : Bytes) :
    (Utf8.segments bytes).flatMap Utf8.Segment.bytes = bytes ∧
      quote bytes = utf8 "\"" ++ (Utf8.segments bytes).flatMap quoteSegment ++ utf8 "\"" ∧
      ∀ before segment after, Utf8.segments bytes = before ++ segment :: after →
        (∃ char, segment.bytes = String.utf8EncodeChar char ∧
          quoteSegment segment = escaped char) ∨
        (quoteSegment segment = String.utf8EncodeChar Utf8.replacement ∧
          Utf8.IsMaximalIllFormed segment.bytes (after.flatMap Utf8.Segment.bytes)) := by
  refine ⟨Utf8.flatMap_bytes_segments bytes, rfl, ?_⟩
  intro before segment after split
  have division := Utf8.isDivision_segments bytes
  rw [split] at division
  have cut := division.isCut
  cases segment with
  | scalar char => exact .inl ⟨char, rfl, quoteSegment_scalar char⟩
  | illFormed piece => exact .inr ⟨rfl, cut⟩

/-- Three bytes of a character of four are cut off together before a quote, and
the two bytes of a surrogate are cut off one by one. -/
theorem quote_segments_isCut_brokenEmoji :
    let bytes : Bytes := [0x61, 0xf0, 0x9f, 0x98, 0x22, 0xed, 0xa0]
    quote bytes = utf8 "\"a\uFFFD\\\"\uFFFD\uFFFD\"" ∧
      Utf8.IsMaximalIllFormed [0xf0, 0x9f, 0x98] [0x22, 0xed, 0xa0] := by
  intro bytes
  have pieces : Utf8.segments bytes = [.scalar 'a'] ++ .illFormed [0xf0, 0x9f, 0x98] ::
      [.scalar '"', .illFormed [0xed], .illFormed [0xa0]] := by decide
  refine ⟨by decide, ?_⟩
  rcases (quote_segments_isCut bytes).2.2 _ _ _ pieces with ⟨char, encoded, -⟩ | ⟨-, maximal⟩
  · have segments := Utf8.segments_encode [char]
    rw [Utf8.encode, List.flatMap_singleton, ← encoded] at segments
    cases segments
  · exact maximal

/-- A quoted byte string is scanned as one string token at offset 0. Its bytes are
those of the one division of the byte string, with every ill-formed piece replaced,
so UTF-8 is not changed; and they are quoted as the byte string is. -/
theorem scan_quote (bytes : Bytes) :
    ∃ pieces, Utf8.IsDivision pieces bytes ∧
      (∀ other, Utf8.IsDivision other bytes → other = pieces) ∧
      let decoded := Utf8.encode (pieces.map Utf8.Segment.char)
      Token.scan (quote bytes) = .ok [⟨.string decoded, quote bytes, 0⟩] ∧
        (∀ chars, bytes = Utf8.encode chars → decoded = bytes) ∧
        quote decoded = quote bytes := by
  refine ⟨Utf8.segments bytes, Utf8.isDivision_segments bytes, ?_, ?_, ?_, quote_repaired bytes⟩
  · intro other division
    exact division.unique (Utf8.isDivision_segments bytes)
  · rw [Token.scan_eq_scanFrom, Token.scanFrom_quote]
    rfl
  · rintro chars rfl
    rw [Utf8.segments_encode, List.map_map]
    exact congrArg Utf8.encode (List.map_id chars)

theorem scan_quote_quotedEmoji :
    let bytes := utf8 "a\"😀"
    bytes = Utf8.encode ['a', '"', '😀'] ∧ quote bytes = utf8 "\"a\\\"😀\"" ∧
      Token.scan (quote bytes) = .ok [⟨.string bytes, quote bytes, 0⟩] := by
  intro bytes
  have encoded : bytes = Utf8.encode ['a', '"', '😀'] := by decide
  obtain ⟨pieces, -, -, scanned, unchanged, -⟩ := scan_quote bytes
  rw [unchanged _ encoded] at scanned
  exact ⟨encoded, by decide, scanned⟩

end Value

end Juxta
