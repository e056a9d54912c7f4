/-
# Reading JSON

The grammar of JSON, with numbers kept as the text they were written with. Blank
space may stand around every element. Nesting is limited, as it is in most
readers.
-/

import Juxta.Text.Numeral
import Juxta.Text.Utf8

namespace Juxta

/-- A JSON text as data. -/
inductive Json
  | null
  | flag (value : Bool)
  | number (text : Bytes)
  | string (content : Bytes)
  | array (items : List Json)
  | object (members : List (Bytes × Json))
  deriving Inhabited

namespace Json

/-- The deepest nesting that is read. -/
def maxNesting : Nat := 10000

/-- Drops blank space. -/
def skipBlank (text : Bytes) : Bytes :=
  text.dropWhile fun byte => byte = Ascii.space || byte = Ascii.tab ||
    byte = Ascii.carriageReturn || byte = Ascii.newline

/-- Takes a fixed word. -/
def word? (word : String) (text : Bytes) : Option Bytes :=
  if text.startsWith word then some (text.drop word.length) else none

/-- Takes one byte of several after blank space. -/
def mark? (marks : Bytes) (text : Bytes) : Option (UInt8 × Bytes) :=
  match skipBlank text with
  | [] => none
  | byte :: rest => if marks.contains byte then some (byte, rest) else none

/-- The length of the whole part of a number: one zero, or digits that start
with another. -/
def wholeLength (text : Bytes) : Nat :=
  if text.head? = some Ascii.zero then 1 else (text.takeWhile Ascii.isDigit).length

/-- The length of a part that is a mark and a run of digits, or nothing. -/
def fractionLength (text : Bytes) : Nat :=
  let digits := (text.tail.takeWhile Ascii.isDigit).length
  if text.head? = some Ascii.point && digits != 0 then 1 + digits else 0

/-- The length of an exponent, or nothing. -/
def exponentLength (text : Bytes) : Nat :=
  let sign := if text.tail.head?.any (fun byte => byte = Ascii.plus || byte = Ascii.minus)
    then 1 else 0
  let digits := ((text.drop (1 + sign)).takeWhile Ascii.isDigit).length
  if text.head?.any (fun byte => Ascii.lower byte = 0x65) && digits != 0 then 1 + sign + digits
  else 0

/-- Takes a number. -/
def number? (text : Bytes) : Option (Bytes × Bytes) :=
  let sign := if text.head? = some Ascii.minus then 1 else 0
  let whole := wholeLength (text.drop sign)
  let fraction := fractionLength (text.drop (sign + whole))
  let exponent := exponentLength (text.drop (sign + whole + fraction))
  let length := sign + whole + fraction + exponent
  if whole = 0 then none else some (text.take length, text.drop length)

/-- The number of four hexadecimal digits. -/
def unit? (digits : Bytes) : Option Nat :=
  digits.foldlM (fun value byte =>
    let lower := Ascii.lower byte
    if Ascii.isDigit byte then some (16 * value + Ascii.digitValue byte)
    else if 0x61 ≤ lower && lower ≤ 0x66 then some (16 * value + (lower.toNat - 0x61 + 10))
    else none) 0

/-- The byte of an escape of one letter. -/
def escape? (letter : UInt8) : Option UInt8 :=
  if letter = Ascii.quote || letter = Ascii.backslash || letter = Ascii.slash then some letter
  else if letter = 0x62 then some 0x08
  else if letter = 0x66 then some 0x0c
  else if letter = Ascii.letterN then some Ascii.newline
  else if letter = 0x72 then some Ascii.carriageReturn
  else if letter = Ascii.letterT then some Ascii.tab
  else none

/-- The bytes of an escaped code unit. Half of a pair alone stands for no character. -/
def unitBytes (unit : Nat) : Bytes :=
  String.utf8EncodeChar (if 0xd800 ≤ unit && unit ≤ 0xdfff then Utf8.replacement
    else Char.ofNat unit)

/-- The bytes of the character that a pair of code units stands for. -/
def pairBytes? (first second : Nat) : Option Bytes :=
  if 0xd800 ≤ first && first ≤ 0xdbff && 0xdc00 ≤ second && second ≤ 0xdfff then
    some (String.utf8EncodeChar
      (Char.ofNat (0x10000 + 0x400 * (first - 0xd800) + (second - 0xdc00))))
  else none

/-- Takes the rest of a string after its opening quote: the content and what follows. -/
def stringBody? : Bytes → Option (Bytes × Bytes)
  | [] => none
  | byte :: rest =>
      if byte = Ascii.quote then some ([], rest)
      else if byte < 0x20 then none
      else if byte = Ascii.backslash then
        match rest with
        | [] => none
        | letter :: rest =>
            if letter = 0x75 then
              match rest with
              | a :: b :: c :: d :: mark :: sort :: e :: f :: g :: h :: rest => do
                  let first ← unit? [a, b, c, d]
                  let isPair := mark = Ascii.backslash && sort = 0x75
                  match (if isPair then unit? [e, f, g, h] else none).bind (pairBytes? first) with
                  | some bytes => do
                      let (content, rest) ← stringBody? rest
                      pure (bytes ++ content, rest)
                  | none => do
                      let (content, rest) ← stringBody? (mark :: sort :: e :: f :: g :: h :: rest)
                      pure (unitBytes first ++ content, rest)
              | a :: b :: c :: d :: rest => do
                  let unit ← unit? [a, b, c, d]
                  let (content, rest) ← stringBody? rest
                  pure (unitBytes unit ++ content, rest)
              | _ => none
            else do
              let escaped ← escape? letter
              let (content, rest) ← stringBody? rest
              pure (escaped :: content, rest)
      else (stringBody? rest).map fun (content, rest) => (byte :: content, rest)

/-- Takes a scalar. -/
def scalar? (text : Bytes) : Option (Json × Bytes) :=
  match text with
  | [] => none
  | byte :: rest =>
      if byte = Ascii.quote then
        (stringBody? rest).map fun (content, rest) => (string content, rest)
      else if byte = 0x6e then (word? "null" text).map fun rest => (null, rest)
      else if byte = 0x74 then (word? "true" text).map fun rest => (flag true, rest)
      else if byte = 0x66 then (word? "false" text).map fun rest => (flag false, rest)
      else (number? text).map fun (text, rest) => (number text, rest)

mutual

/-- Takes a value. The fuel bounds the steps and does not run out if it is twice
the length of the text. -/
def value? : (fuel : Nat) → Bytes → Option (Json × Bytes)
  | 0, _ => none
  | fuel + 1, text =>
      match skipBlank text with
      | [] => none
      | byte :: rest =>
          if byte = Ascii.openBracket then
            match mark? [Ascii.closeBracket] rest with
            | some (_, rest) => some (array [], rest)
            | none => (items? fuel rest).map fun (items, rest) => (array items, rest)
          else if byte = Ascii.openBrace then
            match mark? [Ascii.closeBrace] rest with
            | some (_, rest) => some (object [], rest)
            | none => (members? fuel rest).map fun (members, rest) => (object members, rest)
          else scalar? (byte :: rest)

/-- Takes the items of an array and its closing bracket. -/
def items? : (fuel : Nat) → Bytes → Option (List Json × Bytes)
  | 0, _ => none
  | fuel + 1, text => do
      let (item, rest) ← value? fuel text
      let (mark, rest) ← mark? [Ascii.comma, Ascii.closeBracket] rest
      if mark = Ascii.comma then do
        let (items, rest) ← items? fuel rest
        pure (item :: items, rest)
      else pure ([item], rest)

/-- Takes the members of an object and its closing brace. -/
def members? : (fuel : Nat) → Bytes → Option (List (Bytes × Json) × Bytes)
  | 0, _ => none
  | fuel + 1, text => do
      let (_, rest) ← mark? [Ascii.quote] text
      let (name, rest) ← stringBody? rest
      let (_, rest) ← mark? [Ascii.colon] rest
      let (value, rest) ← value? fuel rest
      let (mark, rest) ← mark? [Ascii.comma, Ascii.closeBrace] rest
      if mark = Ascii.comma then do
        let (members, rest) ← members? fuel rest
        pure ((name, value) :: members, rest)
      else pure ([(name, value)], rest)

end

mutual

/-- How deeply arrays and objects lie inside each other. -/
def nesting : Json → Nat
  | array items => itemsNesting items + 1
  | object members => membersNesting members + 1
  | _ => 0

/-- The deepest nesting of several values. -/
def itemsNesting : List Json → Nat
  | [] => 0
  | item :: rest => max item.nesting (itemsNesting rest)

/-- The deepest nesting of several members. -/
def membersNesting : List (Bytes × Json) → Nat
  | [] => 0
  | (_, value) :: rest => max value.nesting (membersNesting rest)

end

/-- Reads a text that is one value and nothing else. -/
def read? (text : Bytes) : Option Json := do
  let (value, rest) ← value? (2 * text.length + 2) text
  guard ((skipBlank rest).isEmpty && value.nesting ≤ maxNesting)
  pure value

/-- Whether a text is a JSON number and nothing else. -/
def isNumber (text : Bytes) : Bool := (number? text).any fun (_, rest) => rest.isEmpty

end Json

end Juxta
