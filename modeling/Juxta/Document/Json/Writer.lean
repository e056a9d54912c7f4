/-
# Documents as JSON

Two layouts: everything on one line without blanks, or one field or item a line
with two spaces for each level. Bytes that are not part of an encoded character
are each replaced.
-/

import Juxta.Document.Basic
import Juxta.Text.Numeral
import Juxta.Text.Utf8

namespace Juxta.Document

/-- One character of a JSON string. The two line separators of Unicode are
escaped because other readers take them for line ends. -/
def jsonChar (char : Char) : Bytes :=
  match char.toNat with
  | 0x08 => utf8 "\\b"
  | 0x09 => utf8 "\\t"
  | 0x0a => utf8 "\\n"
  | 0x0c => utf8 "\\f"
  | 0x0d => utf8 "\\r"
  | 0x22 => utf8 "\\\""
  | 0x5c => utf8 "\\\\"
  | 0x2028 => utf8 "\\u2028"
  | 0x2029 => utf8 "\\u2029"
  | codePoint =>
      if codePoint < 0x20 then utf8 "\\u" ++ Bytes.hexNumeral 4 codePoint
      else String.utf8EncodeChar char

/-- A byte string as a JSON string. -/
def jsonString (content : Bytes) : Bytes :=
  Ascii.quote :: (Utf8.charsPerByte content).flatMap jsonChar ++ [Ascii.quote]

/-- A truth value as a JSON literal. -/
def jsonFlag (value : Bool) : Bytes := if value then utf8 "true" else utf8 "false"

mutual

/-- A document on one line. -/
def compact : Document → Bytes
  | null => utf8 "null"
  | flag value => jsonFlag value
  | integer value => Numeral.ofInt value
  | text content => jsonString content
  | sequence items => Ascii.openBracket :: compactItems items ++ [Ascii.closeBracket]
  | mapping fields => Ascii.openBrace :: compactFields fields ++ [Ascii.closeBrace]

/-- Items on one line. -/
def compactItems : List Document → Bytes
  | [] => []
  | [last] => last.compact
  | item :: rest => item.compact ++ [Ascii.comma] ++ compactItems rest

/-- Fields on one line. -/
def compactFields : List (Bytes × Document) → Bytes
  | [] => []
  | [(name, value)] => jsonString name ++ [Ascii.colon] ++ value.compact
  | (name, value) :: rest =>
      jsonString name ++ [Ascii.colon] ++ value.compact ++ [Ascii.comma] ++ compactFields rest

end

/-- A line break and the indentation of a level. -/
def jsonBreak (level : Nat) : Bytes := Ascii.newline :: Bytes.fill (2 * level) Ascii.space

mutual

/-- A document over several lines, inside `level` brackets. -/
def indentedAt (level : Nat) : Document → Bytes
  | null => utf8 "null"
  | flag value => jsonFlag value
  | integer value => Numeral.ofInt value
  | text content => jsonString content
  | sequence [] => [Ascii.openBracket, Ascii.closeBracket]
  | sequence (first :: rest) =>
      Ascii.openBracket :: jsonBreak (level + 1) ++ first.indentedAt (level + 1) ++
        indentedItems level rest ++ jsonBreak level ++ [Ascii.closeBracket]
  | mapping [] => [Ascii.openBrace, Ascii.closeBrace]
  | mapping ((name, value) :: rest) =>
      Ascii.openBrace :: jsonBreak (level + 1) ++ jsonString name ++
        [Ascii.colon, Ascii.space] ++ value.indentedAt (level + 1) ++
        indentedFields level rest ++ jsonBreak level ++ [Ascii.closeBrace]

/-- Items after the first, each on a line of its own. -/
def indentedItems (level : Nat) : List Document → Bytes
  | [] => []
  | item :: rest =>
      Ascii.comma :: jsonBreak (level + 1) ++ item.indentedAt (level + 1) ++
        indentedItems level rest

/-- Fields after the first, each on a line of its own. -/
def indentedFields (level : Nat) : List (Bytes × Document) → Bytes
  | [] => []
  | (name, value) :: rest =>
      Ascii.comma :: jsonBreak (level + 1) ++ jsonString name ++ [Ascii.colon, Ascii.space] ++
        value.indentedAt (level + 1) ++ indentedFields level rest

end

/-- A document over several lines. -/
def indented (document : Document) : Bytes := document.indentedAt 0

end Juxta.Document
