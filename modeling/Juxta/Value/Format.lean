/-
# The printed form of values

Numbers print as they stand, strings between quotes, lists on one line and
dictionaries over several, one entry a line and one tab for each dictionary
around it. Data prints as source text that denotes it again. Functions and
foreign values have no source text; they print as marks.
-/

import Juxta.Text.Utf8
import Juxta.Value.Basic

namespace Juxta.Value

/-- One segment of a quoted string. The backslash escapes itself, the quote, the
line feed and the tab; ill-formed bytes become one replacement character. -/
def quoteSegment : Utf8.Segment → Bytes
  | .scalar char =>
      if char.toNat = Ascii.backslash.toNat then [Ascii.backslash, Ascii.backslash]
      else if char.toNat = Ascii.quote.toNat then [Ascii.backslash, Ascii.quote]
      else if char.toNat = Ascii.newline.toNat then [Ascii.backslash, Ascii.letterN]
      else if char.toNat = Ascii.tab.toNat then [Ascii.backslash, Ascii.letterT]
      else String.utf8EncodeChar char
  | .illFormed _ => String.utf8EncodeChar Utf8.replacement

/-- A byte string between quotes. -/
def quote (bytes : Bytes) : Bytes :=
  Ascii.quote :: (Utf8.segments bytes).flatMap quoteSegment ++ [Ascii.quote]

mutual

/-- The printed form of a value inside `depth` dictionaries. -/
def formatAt (depth : Nat) : Value → Bytes
  | number value => value.text
  | string bytes => quote bytes
  | null => [Ascii.underscore]
  | list items => Ascii.openBracket :: formatItems depth items ++ [Ascii.closeBracket]
  | dictionary ⟨entries⟩ =>
      [Ascii.openBrace, Ascii.newline] ++ formatEntries depth entries ++
        Bytes.fill depth Ascii.tab ++ [Ascii.closeBrace]
  | closure _ => utf8 "(\\x)"
  | foreign => utf8 "(# UNKNOWN #)"
  | nothing => utf8 "(# UNKNOWN #)"

/-- The items of a list, with a comma and a space between them. -/
def formatItems (depth : Nat) : List Value → Bytes
  | [] => []
  | [last] => last.formatAt depth
  | item :: rest => item.formatAt depth ++ [Ascii.comma, Ascii.space] ++ formatItems depth rest

/-- The entries of a dictionary, each on a line of its own. -/
def formatEntries (depth : Nat) : List (Bytes × Value) → Bytes
  | [] => []
  | (key, value) :: rest =>
      Bytes.fill (depth + 1) Ascii.tab ++ quote key ++ [Ascii.colon, Ascii.space] ++
        value.formatAt (depth + 1) ++ [Ascii.comma, Ascii.newline] ++ formatEntries depth rest

end

/-- The printed form of a value. -/
def format (value : Value) : Bytes := value.formatAt 0

end Juxta.Value
