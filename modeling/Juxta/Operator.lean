/-
# Operators

The language has a fixed set of binary operators in eleven tiers. Operators of
an earlier tier bind tighter, those of one tier associate to the left. Any run
of operator bytes is an operator token, so a text need not denote an operator
of the language.
-/

import Juxta.Text.Bytes

namespace Juxta

/-- The binary operators. -/
inductive Operator
  | access | map
  | trimLeft | trimRight
  | sizeMinus
  | appendLists | appendStrings | merge
  | multiply | divide
  | add | subtract
  | shiftLeft | shiftRight
  | atMost | atLeast | less | greater
  | equal | sameKind
  | bitAnd | bitOr | bitXor
  deriving DecidableEq, Repr

namespace Operator

/-- How an operator is written. -/
def symbol : Operator → String
  | access => "."
  | map => ".>"
  | trimLeft => "/<"
  | trimRight => "/>"
  | sizeMinus => "--"
  | appendLists => "++"
  | appendStrings => ".."
  | merge => "//"
  | multiply => "*"
  | divide => "/"
  | add => "+"
  | subtract => "-"
  | shiftLeft => "<<"
  | shiftRight => ">>"
  | atMost => "<="
  | atLeast => ">="
  | less => "<"
  | greater => ">"
  | equal => "="
  | sameKind => "~="
  | bitAnd => "&"
  | bitOr => "|"
  | bitXor => "^"

/-- The bytes of an operator. -/
def text (operator : Operator) : Bytes := utf8 operator.symbol

/-- The tiers of precedence, the tightest first. -/
def tiers : List (List Operator) :=
  [[access], [map], [trimLeft, trimRight], [sizeMinus], [appendLists, appendStrings, merge],
    [multiply, divide], [add, subtract], [shiftLeft, shiftRight],
    [atMost, atLeast, less, greater], [equal, sameKind], [bitAnd, bitOr, bitXor]]

/-- Every operator, the tightest first. -/
def all : List Operator := tiers.flatten

/-- The operator that a text denotes. -/
def ofText? (text : Bytes) : Option Operator := all.find? fun operator => operator.text == text

/-- Whether a text denotes an operator of a tier. -/
def inTier (tier : List Operator) (text : Bytes) : Bool :=
  tier.any fun operator => operator.text == text

/-- Whether a text denotes an operator at all. -/
def isKnown (text : Bytes) : Bool := tiers.any fun tier => inTier tier text

end Operator

end Juxta
