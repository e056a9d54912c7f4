/-
# Fractions in documents

A fraction is written as a record of its two integers and read back from JSON or
from a YAML mapping, into a fraction that is there already. Reading takes the
integers as they are and reduces nothing.
-/

import Juxta.Document.Basic
import Juxta.Document.Json.Reader
import Juxta.Fraction.Basic

namespace Juxta.Fraction

/-- The record of a fraction. -/
def document (value : Fraction) : Document :=
  .mapping [Document.field "num" (.integer value.num), Document.field "den" (.integer value.den)]

/-- Why a fraction could not be read. -/
inductive ReadError
  | notRecord
  | fraction (error : FractionError)
  deriving DecidableEq, Repr

/-- Reading into a fraction that is there already. How it ends and what the
fraction is afterwards are both seen, also when it fails. -/
abbrev Receiving (ε : Type) := ExceptT ε (StateM Fraction)

/-- How reading into a fraction ends, and what the fraction is then. -/
def Receiving.into {ε : Type} (reading : Receiving ε Unit) (receiver : Fraction) :
    Except ε Unit × Fraction :=
  reading.run.run receiver

/-- What is read into a fraction that was never given. -/
def Receiving.result {ε : Type} (reading : Receiving ε Unit) : Except ε Fraction :=
  match reading.into default with
  | (.ok _, value) => .ok value
  | (.error error, _) => .error error

/-- Reads the two integers of a fraction, which is not reduced. -/
def receivePair (num den : Bytes) : Receiving FractionError Unit :=
  match Numeral.readInt? num, Numeral.readInt? den with
  | some n, some d => set (⟨n, d⟩ : Fraction)
  | _, _ => throw (.malformedPair num den)

/-- The texts of the two integers while a record is read. -/
structure Pair where
  num : Bytes
  den : Bytes

/-- The text of an integer in JSON: a number, or a string that holds one. Null
says nothing, and everything else is refused. -/
def integerText? : Json → Option (Option Bytes)
  | .number text => some (some text)
  | .string content => if Json.isNumber content then some (some content) else none
  | .null => some none
  | _ => none

/-- Whether a member has a name, in whichever case. -/
def isNamed (name : String) (member : Bytes) : Bool := member.map Ascii.lower == utf8 name

/-- Takes one member of a record into account. A later member wins, and members
of other names are ignored. -/
def Pair.update (pair : Pair) (member : Bytes × Json) : Option Pair :=
  if isNamed "num" member.1 then
    (integerText? member.2).map fun text => { pair with num := text.getD pair.num }
  else if isNamed "den" member.1 then
    (integerText? member.2).map fun text => { pair with den := text.getD pair.den }
  else some pair

/-- The members of a record. Null is the record without members. -/
def members? : Json → Option (List (Bytes × Json))
  | .object members => some members
  | .null => some []
  | _ => none

/-- The texts of the two integers in a JSON text, if it is a record. -/
def Pair.ofJson? (text : Bytes) : Option Pair :=
  ((Json.read? text).bind members?).bind fun members => members.foldlM Pair.update ⟨[], []⟩

/-- Reads a fraction from a JSON text into another. -/
def receiveJson (text : Bytes) : Receiving ReadError Unit :=
  match Pair.ofJson? text with
  | none => throw .notRecord
  | some pair => (receivePair pair.num pair.den).adapt ReadError.fraction

/-- Reads a fraction from a JSON text. -/
def ofJson (text : Bytes) : Except ReadError Fraction := (receiveJson text).result

/-- A node of a YAML document: whether it is a mapping, the line it starts on,
and the scalars in it, where keys and values of a mapping alternate. -/
structure Node where
  isMapping : Bool
  line : Int
  content : List Bytes

/-- The last value of each key. A key without a value is ignored. -/
def Pair.ofContent (pair : Pair) : List Bytes → Pair
  | key :: value :: rest =>
      if key == utf8 "num" then Pair.ofContent { pair with num := value } rest
      else if key == utf8 "den" then Pair.ofContent { pair with den := value } rest
      else Pair.ofContent pair rest
  | _ => pair

/-- The node of a fraction. -/
def node (value : Fraction) : Node :=
  ⟨true, 0, [utf8 "num", Numeral.ofInt value.num, utf8 "den", Numeral.ofInt value.den]⟩

/-- Reads a fraction from a YAML node into another. -/
def receiveNode (node : Node) : Receiving FractionError Unit :=
  if node.isMapping then
    let pair := Pair.ofContent ⟨[], []⟩ node.content
    receivePair pair.num pair.den
  else throw (.notMapping node.line)

/-- Reads a fraction from a YAML node. -/
def ofNode (node : Node) : Except FractionError Fraction := (receiveNode node).result

end Juxta.Fraction
