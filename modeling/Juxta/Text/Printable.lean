/-
# Printable characters

Diagnostics show text as it is, except for characters that a reader could not
see or tell apart. Those are the controls, the invisible format characters,
every separator but the ASCII space, the private-use areas and the
noncharacters. Code points that no standard has assigned yet are not listed.
-/

namespace Juxta.Printable

/-- Inclusive ranges of code points that have no visible form of their own. -/
def invisible : List (Nat × Nat) :=
  [(0x00, 0x1f), (0x7f, 0xa0), (0xad, 0xad), (0x600, 0x605), (0x61c, 0x61c), (0x6dd, 0x6dd),
   (0x70f, 0x70f), (0x890, 0x891), (0x8e2, 0x8e2), (0x1680, 0x1680), (0x180e, 0x180e),
   (0x2000, 0x200f), (0x2028, 0x202f), (0x205f, 0x2064), (0x2066, 0x206f), (0x3000, 0x3000),
   (0xe000, 0xf8ff), (0xfdd0, 0xfdef), (0xfeff, 0xfeff), (0xfff9, 0xfffb), (0x110bd, 0x110bd),
   (0x110cd, 0x110cd), (0x13430, 0x1343f), (0x1bca0, 0x1bca3), (0x1d173, 0x1d17a),
   (0xe0001, 0xe0001), (0xe0020, 0xe007f), (0xf0000, 0x10ffff)]

/-- The last two code points of every plane are noncharacters. -/
def isPlaneEnd (codePoint : Nat) : Bool := 0xfffe ≤ codePoint % 0x10000

/-- Whether a character is shown as itself in a diagnostic. -/
def isPrintable (char : Char) : Bool :=
  !isPlaneEnd char.toNat &&
    !invisible.any fun range => range.1 ≤ char.toNat && char.toNat ≤ range.2

end Juxta.Printable
