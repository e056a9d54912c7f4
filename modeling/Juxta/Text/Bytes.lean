/-
# Byte strings

Source text, string values and everything that is printed are plain sequences
of bytes. They are usually UTF-8, but nothing in the language demands it, so a
byte string is the only text type and ill-formed text is an ordinary value.
-/

namespace Juxta

/-- A finite sequence of bytes. -/
abbrev Bytes := List UInt8

/-- The UTF-8 encoding of a text. -/
def utf8 (text : String) : Bytes := text.toUTF8.data.toList

/-! Names for the ASCII characters that the grammar and the formats single out. -/

namespace Ascii

abbrev tab : UInt8 := 0x09
abbrev newline : UInt8 := 0x0a
abbrev carriageReturn : UInt8 := 0x0d
abbrev escape : UInt8 := 0x1b
abbrev space : UInt8 := 0x20
abbrev quote : UInt8 := 0x22
abbrev hash : UInt8 := 0x23
abbrev ampersand : UInt8 := 0x26
abbrev openParen : UInt8 := 0x28
abbrev closeParen : UInt8 := 0x29
abbrev star : UInt8 := 0x2a
abbrev plus : UInt8 := 0x2b
abbrev comma : UInt8 := 0x2c
abbrev minus : UInt8 := 0x2d
abbrev point : UInt8 := 0x2e
abbrev slash : UInt8 := 0x2f
abbrev zero : UInt8 := 0x30
abbrev nine : UInt8 := 0x39
abbrev colon : UInt8 := 0x3a
abbrev less : UInt8 := 0x3c
abbrev equals : UInt8 := 0x3d
abbrev greater : UInt8 := 0x3e
abbrev atSign : UInt8 := 0x40
abbrev openBracket : UInt8 := 0x5b
abbrev backslash : UInt8 := 0x5c
abbrev closeBracket : UInt8 := 0x5d
abbrev caret : UInt8 := 0x5e
abbrev underscore : UInt8 := 0x5f
abbrev letterN : UInt8 := 0x6e
abbrev letterT : UInt8 := 0x74
abbrev openBrace : UInt8 := 0x7b
abbrev bar : UInt8 := 0x7c
abbrev closeBrace : UInt8 := 0x7d
abbrev tilde : UInt8 := 0x7e

/-- The ten decimal digits. -/
def isDigit (byte : UInt8) : Bool := zero ≤ byte && byte ≤ nine

/-- The number a decimal digit stands for. -/
def digitValue (byte : UInt8) : Nat := byte.toNat - zero.toNat

/-- An upper-case letter becomes its lower-case partner; all other bytes stay. -/
def lower (byte : UInt8) : UInt8 := if 0x41 ≤ byte && byte ≤ 0x5a then byte + 0x20 else byte

end Ascii

namespace Bytes

/-- One hexadecimal digit, with the letters starting at `letter`. -/
def hexDigit (letter : UInt8) (nibble : Nat) : UInt8 :=
  if nibble < 10 then Ascii.zero + UInt8.ofNat nibble else letter + UInt8.ofNat (nibble - 10)

/-- The last `width` hexadecimal digits of a number, in lower case. -/
def hexNumeral : (width : Nat) → Nat → Bytes
  | 0, _ => []
  | width + 1, number => hexNumeral width (number / 16) ++ [hexDigit 0x61 (number % 16)]

/-- The last `width` hexadecimal digits of a number, in upper case. -/
def upperHexNumeral : (width : Nat) → Nat → Bytes
  | 0, _ => []
  | width + 1, number => upperHexNumeral width (number / 16) ++ [hexDigit 0x41 (number % 16)]

/-- Two lower-case hexadecimal digits for each byte, the high half first. -/
def hex (bytes : Bytes) : Bytes :=
  bytes.flatMap fun byte => [hexDigit 0x61 (byte.toNat / 16), hexDigit 0x61 (byte.toNat % 16)]

/-- Byte strings joined by a separator. -/
def join (separator : Bytes) : List Bytes → Bytes
  | [] => []
  | [last] => last
  | first :: rest => first ++ separator ++ join separator rest

/-- The pieces of a byte string between the separators. -/
def split (separator : UInt8) : Bytes → List Bytes
  | [] => [[]]
  | byte :: rest =>
      if byte = separator then [] :: split separator rest
      else match split separator rest with
        | [] => [[byte]]
        | piece :: pieces => (byte :: piece) :: pieces

/-- Whether a byte string starts with an ASCII text. -/
def startsWith (text : Bytes) (start : String) : Bool := (utf8 start).isPrefixOf text

/-- `n` copies of one byte. -/
def fill (n : Nat) (byte : UInt8) : Bytes := List.replicate n byte

end Bytes

end Juxta
