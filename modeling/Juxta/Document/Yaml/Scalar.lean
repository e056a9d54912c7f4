/-
# YAML scalars

A text is written in the simplest style that reads back as the same text:
plain, between single quotes, between double quotes with escapes, or, if it has
several lines, as a literal block. Bytes that are not UTF-8 are written in base
64 with a tag.
-/

import Juxta.Document.Yaml.Plain
import Juxta.Text.Base64
import Juxta.Text.Utf8

namespace Juxta.Yaml

/-- The characters that need no escape. Everything beyond the basic plane is
escaped. -/
def isPlainChar (char : Char) : Bool :=
  let codePoint := char.toNat
  (0x20 ≤ codePoint && codePoint ≤ 0x7e) ||
    (0xa0 ≤ codePoint && codePoint ≤ 0xfffd && codePoint != 0xfeff)

/-- The ways to write a scalar. -/
inductive Style
  | plain | single | double | literal
  deriving DecidableEq, Repr

/-- The characters that would start something else in front of a plain scalar. -/
def indicators : List UInt8 := utf8 "#,[]\x7b\x7d&*!|>'\"%@" ++ [0x60]

/-- Whether a blank or the end stands first. -/
def startsBlank : Bytes → Bool
  | [] => true
  | byte :: _ => byte = Ascii.space || byte = Ascii.tab

/-- Whether the first byte of a text would start something else. -/
def startsIndicator : Bytes → Bool
  | [] => false
  | byte :: rest =>
      indicators.contains byte ||
        ((byte = 0x3f || byte = Ascii.minus) && startsBlank rest)

/-- Whether a text holds a colon before a blank or the end, or a comment sign
after a blank. -/
def hasSeparator : Bytes → Bool
  | [] => false
  | byte :: rest =>
      (byte = Ascii.colon && startsBlank rest) ||
        ((byte = Ascii.space || byte = Ascii.tab) && rest.head? == some Ascii.hash) ||
        hasSeparator rest

/-- Whether a text of one line can stand without quotes. -/
def allowsPlain (text : Bytes) : Bool :=
  text.head? != some Ascii.space && text.getLast? != some Ascii.space &&
    !text.startsWith "---" && !text.startsWith "..." &&
    !startsIndicator text && !hasSeparator text

/-- Whether a text has a space at the end of a line. -/
def hasTrailingSpace (text : Bytes) : Bool :=
  (Bytes.split Ascii.newline text).any fun line => line.getLast? == some Ascii.space

/-- The style of a text. -/
def style (text : Bytes) : Style :=
  let chars := Utf8.charsPerByte text
  if text.contains Ascii.newline then
    if !hasTrailingSpace text &&
        chars.all fun char => isPlainChar char || char.toNat = 0x0a || char.toNat = 0x09 then
      .literal
    else .double
  else if Plain.isTaken text then .double
  else if !chars.all isPlainChar then .double
  else if allowsPlain text then .plain
  else .single

/-- The escapes that are written with one sign after the backslash. -/
def signEscape? (char : Char) : Option Bytes :=
  match char.toNat with
  | 0x00 => some (utf8 "\\0")
  | 0x07 => some (utf8 "\\a")
  | 0x08 => some (utf8 "\\b")
  | 0x09 => some (utf8 "\\t")
  | 0x0a => some (utf8 "\\n")
  | 0x0b => some (utf8 "\\v")
  | 0x0c => some (utf8 "\\f")
  | 0x0d => some (utf8 "\\r")
  | 0x1b => some (utf8 "\\e")
  | 0x22 => some (utf8 "\\\"")
  | 0x5c => some (utf8 "\\\\")
  | 0x85 => some (utf8 "\\N")
  | 0xa0 => some (utf8 "\\_")
  | 0x2028 => some (utf8 "\\L")
  | 0x2029 => some (utf8 "\\P")
  | _ => none

/-- The escape of a code point by its number, in the shortest of the three widths. -/
def numberEscape (codePoint : Nat) : Bytes :=
  if codePoint < 0x100 then utf8 "\\x" ++ Bytes.upperHexNumeral 2 codePoint
  else if codePoint < 0x10000 then utf8 "\\u" ++ Bytes.upperHexNumeral 4 codePoint
  else utf8 "\\U" ++ Bytes.upperHexNumeral 8 codePoint

/-- The escape of a character. -/
def escape (char : Char) : Bytes := (signEscape? char).getD (numberEscape char.toNat)

/-- Whether a character stands for itself between double quotes. -/
def isUnescaped (char : Char) : Bool :=
  isPlainChar char && char.toNat != Ascii.quote.toNat && char.toNat != Ascii.backslash.toNat &&
    char.toNat != 0x2028 && char.toNat != 0x2029

/-- The mark by which a reader of a text tells its encoding. -/
def byteOrderMark : Char := '\ufeff'

/-- A text between double quotes. A text that starts with a byte order mark is
escaped throughout, so that what is written is ASCII in every encoding. -/
def doubleQuoted (text : Bytes) : Bytes :=
  let chars := Utf8.charsPerByte text
  let isMarked := chars.head? == some byteOrderMark
  let written := chars.flatMap fun char =>
    if isUnescaped char && !isMarked then String.utf8EncodeChar char else escape char
  Ascii.quote :: written ++ [Ascii.quote]

/-- A text between single quotes, each of which is doubled inside. -/
def singleQuoted (text : Bytes) : Bytes :=
  0x27 :: text.flatMap (fun byte => if byte = 0x27 then [byte, byte] else [byte]) ++ [0x27]

/-- The width of one level of indentation. -/
def indentWidth : Nat := 4

/-- The column at which something nested under a key at a column starts. -/
def nestedColumn (column : Nat) : Nat := indentWidth * ((column + indentWidth) / indentWidth)

/-- What follows the bar of a literal: an indentation if the text starts with
blanks, and a sign if it does not end in exactly one line feed. -/
def literalHints (text : Bytes) : Bytes :=
  let startsLow := text.head? == some Ascii.space || text.head? == some Ascii.newline
  let isOpen := text == [Ascii.newline] || (utf8 "\n\n").isSuffixOf text
  (if startsLow then Numeral.ofNat indentWidth else []) ++
    (if text.getLast? != some Ascii.newline then [Ascii.minus]
      else if isOpen then [Ascii.plus] else [])

/-- The lines of a literal. `atStart` tells whether the output is at the start of
a line, `fresh` whether the next character is the first of its line. -/
def literalLines (column : Nat) : (atStart fresh : Bool) → Bytes → Bytes
  | _, _, [] => []
  | atStart, fresh, byte :: rest =>
      if byte = Ascii.newline then byte :: literalLines column true true rest
      else
        (if fresh then
            (if atStart then [] else [Ascii.newline]) ++ Bytes.fill column Ascii.space
          else []) ++
          byte :: literalLines column false false rest

/-- A text as a literal block under a key at a column. -/
def literal (column : Nat) (text : Bytes) : Bytes :=
  Ascii.bar :: literalHints text ++ literalLines (nestedColumn column) false true text

/-- The longest line of base 64. -/
def base64Width : Nat := 70

/-- Cuts a text in lines of a width, each ended by a line feed. -/
def cutLines (width : Nat) : (used : Nat) → Bytes → Bytes
  | used, [] => if used = 0 then [] else [Ascii.newline]
  | used, byte :: rest =>
      if used = width then Ascii.newline :: byte :: cutLines width 1 rest
      else byte :: cutLines width (used + 1) rest

/-- Bytes that are not a text: base 64 on one line, or on lines of a width. -/
def binary (column : Nat) (bytes : Bytes) : Bytes :=
  let encoded := Base64.encode bytes
  utf8 "!!binary " ++
    if encoded.length < base64Width then encoded
    else literal column (cutLines base64Width 0 encoded)

/-- A scalar under a key at a column. -/
def scalar (column : Nat) (content : Bytes) : Bytes :=
  if !Utf8.isValid content then binary column content
  else match style content with
    | .plain => content
    | .single => singleQuoted content
    | .double => doubleQuoted content
    | .literal => literal column content

end Juxta.Yaml
