/-
# What a plain YAML scalar reads as

A scalar without quotes is a string only if it does not look like something
else: null, a truth value, a number in any of several notations, or a date. Text
that would be taken for something else has to be quoted.
-/

import Juxta.Document.Yaml.Timestamp

namespace Juxta.Yaml.Plain

/-- The words that stand for null, truth values and special numbers, among them
those of older readers. -/
def reserved : List String :=
  ["", "~", "null", "Null", "NULL", "true", "True", "TRUE", "false", "False", "FALSE",
    ".nan", ".NaN", ".NAN", ".inf", ".Inf", ".INF", "+.inf", "+.Inf", "+.INF",
    "-.inf", "-.Inf", "-.INF", "y", "Y", "yes", "Yes", "YES", "on", "On", "ON",
    "n", "N", "no", "No", "NO", "off", "Off", "OFF"]

/-- Splits off a sign. -/
def unsigned (text : Bytes) : Option UInt8 × Bytes :=
  match text with
  | byte :: rest =>
      if byte = Ascii.plus || byte = Ascii.minus then (some byte, rest) else (none, text)
  | [] => (none, [])

/-- The value of a digit, where letters go on after nine. -/
def digitValue (byte : UInt8) : Nat :=
  if Ascii.isDigit byte then Ascii.digitValue byte
  else if 0x61 ≤ Ascii.lower byte && Ascii.lower byte ≤ 0x7a then
    (Ascii.lower byte).toNat - 0x61 + 10
  else 36

/-- The value of a run of digits in a base. -/
def inBase? (base : Nat) (digits : Bytes) : Option Nat :=
  if digits.all (digitValue · < base) then
    some (digits.foldl (fun value digit => base * value + digitValue digit) 0)
  else none

/-- The value of an unsigned integer. A leading zero means base eight, and with
a letter after it, base two, eight or sixteen. -/
def magnitude? : Bytes → Option Nat
  | [] => none
  | [byte] => inBase? 10 [byte]
  | byte :: mark :: rest =>
      if byte != Ascii.zero then inBase? 10 (byte :: mark :: rest)
      else if rest.isEmpty then inBase? 8 [mark]
      else if Ascii.lower mark = 0x62 then inBase? 2 rest
      else if Ascii.lower mark = 0x6f then inBase? 8 rest
      else if Ascii.lower mark = 0x78 then inBase? 16 rest
      else inBase? 8 (mark :: rest)

/-- Whether a magnitude fits in 64 bits: with a minus sign or a plus sign in a
signed word, otherwise in an unsigned one. -/
def fits (sign : Option UInt8) (magnitude : Nat) : Bool :=
  match sign with
  | none => magnitude < Nat.pow 2 64
  | some byte => if byte = Ascii.minus then magnitude ≤ Nat.pow 2 63
      else magnitude < Nat.pow 2 63

/-- Whether a text is an integer of 64 bits. -/
def isInteger (text : Bytes) : Bool :=
  let (sign, rest) := unsigned text
  (magnitude? rest).any (fits sign)

/-- Whether a text is `0b` or `0o` with a signed run of digits. -/
def isPrefixed (text : Bytes) : Bool :=
  let base := if text.startsWith "0b" then 2 else if text.startsWith "0o" then 8 else 0
  let (sign, digits) := unsigned (text.drop 2)
  base != 0 && !digits.isEmpty && (inBase? base digits).any (fits sign)

/-- An exponent that has reached this limit takes no further digits. -/
def exponentLimit : Nat := 10000

/-- The size of an exponent. Once the limit is reached further digits are passed
over, so the size has at most five digits. -/
def exponentSize (digits : Bytes) : Nat :=
  digits.foldl (fun size digit =>
    if size < exponentLimit then 10 * size + Ascii.digitValue digit else size) 0

/-- Whether a text is an exponent: the letter `e` and a signed run of digits. The
exponent of no text is zero. -/
def exponent? : Bytes → Option Int
  | [] => some 0
  | byte :: rest =>
      let (sign, digits) := unsigned rest
      if Ascii.lower byte = 0x65 && !digits.isEmpty && digits.all Ascii.isDigit then
        some (if sign = some Ascii.minus then -(exponentSize digits : Int)
          else exponentSize digits)
      else none

/-- The least magnitude that rounds to infinity in a binary floating-point
number of 64 bits. -/
def overflow : Nat := Nat.pow 2 1024 - Nat.pow 2 970

/-- The number of decimal digits of the least magnitude that rounds to infinity. -/
def overflowLength : Nat := 309

/-- How many digits of a number are kept, from the first that is not zero. A
whole part of more digits counts as one of so many. -/
def keptDigits : Nat := 800

/-- Whether a decimal number is finite as a floating-point number of 64 bits. The
place of its first digit decides, except next to the limit. -/
def isFinite (whole part : Bytes) (exponent : Int) : Bool :=
  let significant := (whole ++ part).dropWhile (· == Ascii.zero)
  let kept := significant.take keptDigits
  let place := min ((significant.length : Int) - part.length) keptDigits + exponent
  if significant.isEmpty || place < overflowLength then true
  else if place > overflowLength then false
  else
    Numeral.digitsValue kept * Nat.pow 10 (overflowLength - kept.length) <
      overflow * Nat.pow 10 (kept.length - overflowLength)

/-- Whether a text is a finite decimal number: an optional sign, digits with an
optional point among or before them, and an optional exponent. -/
def isFloat (text : Bytes) : Bool :=
  let (_, body) := unsigned text
  let whole := body.takeWhile Ascii.isDigit
  let rest := body.drop whole.length
  let pointed := rest.head? == some Ascii.point
  let part := if pointed then rest.tail.takeWhile Ascii.isDigit else []
  let tail := if pointed then rest.drop (1 + part.length) else rest
  match exponent? tail with
  | none => false
  | some exponent => !(whole ++ part).isEmpty && isFinite whole part exponent

/-- Whether every underscore has a digit on both sides, in a text after a byte
that is a digit or not. -/
def separatesDigits (afterDigit : Bool) : Bytes → Bool
  | [] => true
  | byte :: rest =>
      (byte != Ascii.underscore || (afterDigit && rest.head?.any Ascii.isDigit)) &&
        separatesDigits (Ascii.isDigit byte) rest

/-- A text without its underscores. -/
def dense (text : Bytes) : Bytes := text.filter (· != Ascii.underscore)

/-- Whether a text is a number in base sixty: groups with colons between them, a
later group below sixty, and an optional fraction. -/
def isSexagesimal (text : Bytes) : Bool :=
  let isFigure := fun byte => Ascii.isDigit byte || byte == Ascii.underscore
  let (_, body) := unsigned text
  let whole := body.takeWhile (· != Ascii.point)
  let fraction := (body.drop whole.length).tail
  match Bytes.split Ascii.colon whole with
  | first :: second :: others =>
      first.head?.any Ascii.isDigit && first.all isFigure && fraction.all isFigure &&
        (second :: others).all fun group =>
          match group with
          | [unit] => Ascii.isDigit unit
          | [ten, unit] => Ascii.isDigit ten && ten ≤ 0x35 && Ascii.isDigit unit
          | _ => false
  | _ => false

/-- Whether a text without quotes would not be read as a string. -/
def isTaken (text : Bytes) : Bool :=
  if reserved.any fun word => utf8 word == text then true
  else match text with
    | [] => true
    | byte :: _ =>
        if byte = Ascii.point then separatesDigits false text && isFloat (dense text)
        else if Ascii.isDigit byte || byte = Ascii.plus || byte = Ascii.minus then
          Timestamp.isTimestamp text || isInteger (dense text) || isFloat (dense text) ||
            isPrefixed (dense text) || isSexagesimal text
        else false

end Juxta.Yaml.Plain
