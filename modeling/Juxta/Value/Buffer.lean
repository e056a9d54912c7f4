/-
# Byte strings as bit buffers

A byte string is also a buffer of bits, the most significant bit of the first
byte in front. Shifting keeps the length: bits that leave the buffer are lost
and zeros enter at the other end.
-/

import Juxta.Text.Bytes

namespace Juxta.Buffer

/-- Moves every bit `bits` places to the front, for `bits` at most eight. -/
def carryLeft (bits : Nat) : Bytes → Bytes
  | [] => []
  | [byte] => [UInt8.ofNat ((256 * byte.toNat) >>> (8 - bits))]
  | byte :: next :: rest =>
      UInt8.ofNat ((256 * byte.toNat + next.toNat) >>> (8 - bits)) ::
        carryLeft bits (next :: rest)

/-- Moves every bit `bits` places to the back, for `bits` at most eight, after a
byte that stood in front. -/
def carryRight (bits : Nat) (previous : UInt8) : Bytes → Bytes
  | [] => []
  | byte :: rest =>
      UInt8.ofNat ((256 * previous.toNat + byte.toNat) >>> bits) :: carryRight bits byte rest

/-- Shifts a buffer by whole bytes and then by the bits that remain, to the front. -/
def shiftLeft (buffer : Bytes) (count : Nat) : Bytes :=
  carryLeft (count % 8) (buffer.drop (count / 8)) ++
    Bytes.fill (min (count / 8) buffer.length) 0

/-- Shifts a buffer by whole bytes and then by the bits that remain, to the back. -/
def shiftRight (buffer : Bytes) (count : Nat) : Bytes :=
  Bytes.fill (min (count / 8) buffer.length) 0 ++
    carryRight (count % 8) 0 (buffer.take (buffer.length - count / 8))

/-- A buffer without its first bytes. -/
def trimLeft (buffer : Bytes) (count : Nat) : Bytes := buffer.drop count

/-- A buffer without its last bytes. -/
def trimRight (buffer : Bytes) (count : Nat) : Bytes := buffer.take (buffer.length - count)

end Juxta.Buffer
