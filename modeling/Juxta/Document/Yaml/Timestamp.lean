/-
# Dates and times in plain YAML scalars

A plain scalar that looks like a date is read as one. A date has a year of four
digits and a month and a day of one or two; it must exist in the calendar. A
time may follow after `T` or `t`, then with a zone, or after spaces, then
without. Seconds may have a fraction.
-/

import Juxta.Text.Numeral

namespace Juxta.Yaml.Timestamp

/-- Takes one or two digits that spell a number in a range. -/
def number? (low high : Nat) (text : Bytes) : Option (Nat × Bytes) :=
  let digits := (text.take 2).takeWhile Ascii.isDigit
  let value := Numeral.digitsValue digits
  if digits.isEmpty || value < low || high < value then none
  else some (value, text.drop digits.length)

/-- Takes exactly two digits that spell a number up to a limit. -/
def pair? (high : Nat) (text : Bytes) : Option Bytes :=
  let digits := (text.take 2).takeWhile Ascii.isDigit
  if digits.length = 2 && Numeral.digitsValue digits ≤ high then some (text.drop 2) else none

/-- Takes one given byte. -/
def mark? (mark : UInt8) (text : Bytes) : Option Bytes :=
  if text.head? = some mark then some text.tail else none

/-- Whether a year has a leap day. -/
def isLeap (year : Nat) : Bool := year % 4 = 0 && (year % 100 != 0 || year % 400 = 0)

/-- The number of days of a month. -/
def daysIn (year month : Nat) : Nat :=
  if month = 2 then (if isLeap year then 29 else 28)
  else if month = 4 || month = 6 || month = 9 || month = 11 then 30
  else 31

/-- Takes a date of the calendar. -/
def date? (text : Bytes) : Option Bytes := do
  let digits := text.takeWhile Ascii.isDigit
  guard (digits.length = 4)
  let afterYear ← mark? Ascii.minus (text.drop 4)
  let (month, afterMonth) ← number? 1 12 afterYear
  let beforeDay ← mark? Ascii.minus afterMonth
  let (_, rest) ← number? 1 (daysIn (Numeral.digitsValue digits) month) beforeDay
  pure rest

/-- Drops a fraction of a second, if there is one. -/
def dropFraction : Bytes → Bytes
  | [] => []
  | byte :: rest =>
      if (byte = Ascii.point || byte = Ascii.comma) && rest.head?.any Ascii.isDigit then
        rest.dropWhile Ascii.isDigit
      else byte :: rest

/-- Takes a time of the day. -/
def clock? (text : Bytes) : Option Bytes := do
  let (_, afterHour) ← number? 0 23 text
  let beforeMinute ← mark? Ascii.colon afterHour
  let (_, afterMinute) ← number? 0 59 beforeMinute
  let beforeSecond ← mark? Ascii.colon afterMinute
  let (_, rest) ← number? 0 59 beforeSecond
  pure (dropFraction rest)

/-- Takes a zone: `Z`, or a signed offset in hours and minutes. -/
def zone? (text : Bytes) : Option Bytes :=
  match text with
  | [] => none
  | byte :: rest =>
      if byte = 0x5a then some rest
      else if byte = Ascii.plus || byte = Ascii.minus then do
        let afterHours ← pair? 24 rest
        let beforeMinutes ← mark? Ascii.colon afterHours
        pair? 60 beforeMinutes
      else none

/-- Whether a text is a date, or a date and a time. -/
def isTimestamp (text : Bytes) : Bool :=
  match date? text with
  | none => false
  | some [] => true
  | some (byte :: rest) =>
      if byte = 0x54 || byte = Ascii.letterT then (clock? rest).bind zone? == some []
      else if byte = Ascii.space then clock? (rest.dropWhile (· == Ascii.space)) == some []
      else false

end Juxta.Yaml.Timestamp
