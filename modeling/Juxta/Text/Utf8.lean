/-
# UTF-8 segments

Every byte string splits in exactly one way into encoded characters and maximal
ill-formed pieces. A piece is ill-formed when it is a byte that starts no
character, or a lead byte with those continuation bytes that could still have
completed it. Quoting, validity and repair are all read off this one splitting.
-/

import Juxta.Text.Bytes

namespace Juxta.Utf8

/-- A piece of a byte string: one encoded character, or bytes that encode none. -/
inductive Segment
  | scalar (char : Char)
  | illFormed (bytes : Bytes)
  deriving DecidableEq, Inhabited

/-- What a lead byte announces: how many continuation bytes follow it and which
values the first of them may take. The later ones range over `0x80` to `0xbf`. -/
structure Lead where
  more : Nat
  low : UInt8
  high : UInt8
  deriving DecidableEq

/-- The announcement of a lead byte. The narrowed ranges rule out overlong
forms, surrogates and code points beyond U+10FFFF. -/
def lead? (byte : UInt8) : Option Lead :=
  if 0xc2 ≤ byte && byte ≤ 0xdf then some ⟨1, 0x80, 0xbf⟩
  else if 0xe0 ≤ byte && byte ≤ 0xef then
    some ⟨2, if byte = 0xe0 then 0xa0 else 0x80, if byte = 0xed then 0x9f else 0xbf⟩
  else if 0xf0 ≤ byte && byte ≤ 0xf4 then
    some ⟨3, if byte = 0xf0 then 0x90 else 0x80, if byte = 0xf4 then 0x8f else 0xbf⟩
  else none

/-- The longest run of at most `more` continuation bytes at the start of `rest`,
the first of them between `low` and `high`. -/
def continuation (more : Nat) (low high : UInt8) (rest : Bytes) : Bytes :=
  match more, rest with
  | 0, _ => []
  | _, [] => []
  | more + 1, byte :: rest =>
      if low ≤ byte && byte ≤ high then byte :: continuation more 0x80 0xbf rest else []

/-- The code point of a complete sequence: the low bits of the lead byte, then
six bits from each continuation byte. -/
def codePoint (lead : UInt8) (tail : Bytes) : Nat :=
  tail.foldl (fun value byte => 64 * value + byte.toNat % 64)
    (lead.toNat % Nat.pow 2 (6 - tail.length))

/-- The first segment of `byte :: rest` and how many bytes of `rest` it covers. -/
def first (byte : UInt8) (rest : Bytes) : Segment × Nat :=
  if byte < 0x80 then (.scalar (Char.ofNat byte.toNat), 0)
  else match lead? byte with
    | none => (.illFormed [byte], 0)
    | some lead =>
        let tail := continuation lead.more lead.low lead.high rest
        if tail.length = lead.more then (.scalar (Char.ofNat (codePoint byte tail)), tail.length)
        else (.illFormed (byte :: tail), tail.length)

/-- The segments of a byte string after its first `covered` bytes. -/
def segmentsFrom : (covered : Nat) → Bytes → List Segment
  | _, [] => []
  | covered + 1, _ :: rest => segmentsFrom covered rest
  | 0, byte :: rest => (first byte rest).1 :: segmentsFrom (first byte rest).2 rest

/-- The segments of a byte string, in order. -/
def segments (bytes : Bytes) : List Segment := segmentsFrom 0 bytes

namespace Segment

/-- The bytes that a segment covers. -/
def bytes : Segment → Bytes
  | scalar char => String.utf8EncodeChar char
  | illFormed bytes => bytes

/-- Whether the segment is an encoded character. -/
def isScalar : Segment → Bool
  | scalar _ => true
  | illFormed _ => false

end Segment

/-- Whether a byte string is UTF-8 throughout. -/
def isValid (bytes : Bytes) : Bool := (segments bytes).all Segment.isScalar

/-- The replacement character U+FFFD. -/
def replacement : Char := Char.ofNat 0xfffd

/-- The characters of a byte string, with one replacement character for every
byte that is not part of an encoded character. -/
def charsPerByte (bytes : Bytes) : List Char :=
  (segments bytes).flatMap fun
    | .scalar char => [char]
    | .illFormed bytes => bytes.map fun _ => replacement

/-- The UTF-8 encoding of a list of characters. -/
def encode (chars : List Char) : Bytes := chars.flatMap String.utf8EncodeChar

end Juxta.Utf8
