/-
# Quoted text in diagnostics

Messages show pieces of source between double quotes. Everything that is not
plainly readable is escaped, so the quoted form is always printable text and
shows each ill-formed byte on its own.
-/

import Juxta.Text.Printable
import Juxta.Text.Utf8

namespace Juxta.Quoted

/-- The escapes of the control characters that have a letter of their own. -/
def letterEscape? (char : Char) : Option Bytes :=
  match char.toNat with
  | 0x07 => some (utf8 "\\a")
  | 0x08 => some (utf8 "\\b")
  | 0x09 => some (utf8 "\\t")
  | 0x0a => some (utf8 "\\n")
  | 0x0b => some (utf8 "\\v")
  | 0x0c => some (utf8 "\\f")
  | 0x0d => some (utf8 "\\r")
  | _ => none

/-- The escape of a code point by its number, in the shortest of the three widths. -/
def numberEscape (codePoint : Nat) : Bytes :=
  if codePoint < 0x80 then utf8 "\\x" ++ Bytes.hexNumeral 2 codePoint
  else if codePoint < 0x10000 then utf8 "\\u" ++ Bytes.hexNumeral 4 codePoint
  else utf8 "\\U" ++ Bytes.hexNumeral 8 codePoint

/-- One character between the quotes. -/
def char (c : Char) : Bytes :=
  if c.toNat = Ascii.quote.toNat || c.toNat = Ascii.backslash.toNat then
    Ascii.backslash :: String.utf8EncodeChar c
  else if Printable.isPrintable c then String.utf8EncodeChar c
  else (letterEscape? c).getD (numberEscape c.toNat)

/-- One segment between the quotes; ill-formed bytes are shown by their values. -/
def segment : Utf8.Segment → Bytes
  | .scalar c => char c
  | .illFormed bytes => bytes.flatMap fun byte => utf8 "\\x" ++ Bytes.hexNumeral 2 byte.toNat

/-- A text between double quotes. -/
def ofBytes (text : Bytes) : Bytes :=
  Ascii.quote :: (Utf8.segments text).flatMap segment ++ [Ascii.quote]

end Juxta.Quoted
