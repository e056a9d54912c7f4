/-
# Base 64

Three bytes become four characters of a sixty-four letter alphabet. The last
group is filled up with equals signs.
-/

import Juxta.Text.Bytes

namespace Juxta.Base64

/-- The character of a six-bit number. -/
def letter (number : Nat) : UInt8 :=
  if number < 26 then 0x41 + UInt8.ofNat number
  else if number < 52 then 0x61 + UInt8.ofNat (number - 26)
  else if number < 62 then Ascii.zero + UInt8.ofNat (number - 52)
  else if number = 62 then Ascii.plus
  else Ascii.slash

/-- The encoding of a byte string. -/
def encode : Bytes → Bytes
  | [] => []
  | [a] =>
      [letter (a.toNat / 4), letter (a.toNat % 4 * 16), Ascii.equals, Ascii.equals]
  | [a, b] =>
      [letter (a.toNat / 4), letter (a.toNat % 4 * 16 + b.toNat / 16),
        letter (b.toNat % 16 * 4), Ascii.equals]
  | a :: b :: c :: rest =>
      [letter (a.toNat / 4), letter (a.toNat % 4 * 16 + b.toNat / 16),
        letter (b.toNat % 16 * 4 + c.toNat / 64), letter (c.toNat % 64)] ++ encode rest

end Juxta.Base64
