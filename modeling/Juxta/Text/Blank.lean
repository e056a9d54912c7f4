/-
# Blank text

The white space of the Unicode standard, with the ASCII controls from tab to
carriage return. A text that holds nothing else is blank.
-/

import Juxta.Text.Utf8

namespace Juxta.Blank

/-- Inclusive ranges of white-space code points. -/
def ranges : List (Nat × Nat) :=
  [(0x09, 0x0d), (0x20, 0x20), (0x85, 0x85), (0xa0, 0xa0), (0x1680, 0x1680), (0x2000, 0x200a),
   (0x2028, 0x2029), (0x202f, 0x202f), (0x205f, 0x205f), (0x3000, 0x3000)]

/-- Whether a segment is a white-space character. -/
def isBlank : Utf8.Segment → Bool
  | .scalar char => ranges.any fun range => range.1 ≤ char.toNat && char.toNat ≤ range.2
  | .illFormed _ => false

/-- A text without the white space at its two ends. -/
def trim (text : Bytes) : Bytes :=
  let front := (Utf8.segments text).dropWhile isBlank
  (front.reverse.dropWhile isBlank).reverse.flatMap Utf8.Segment.bytes

end Juxta.Blank
