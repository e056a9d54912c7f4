/-
# What the operators do

Each operator is defined on some kinds of operands and refuses the others. The
only operator that runs programs is the map, which calls a function on every
item of a list or on every value of a dictionary in the order of the keys.
-/

import Juxta.Eval.Run
import Juxta.Fraction.Operation
import Juxta.Operator
import Juxta.Value.Buffer

namespace Juxta

open Run (blame)

namespace Value

/-- What selects a part of a value: a position or a key. -/
inductive Selector
  | index (position : Int)
  | key (name : Bytes)
  deriving DecidableEq, Repr

/-- A number selects by its numerator, a string by its bytes. -/
def selector? : Value → Option Selector
  | number value => some (.index value.num)
  | string bytes => some (.key bytes)
  | _ => none

/-- The item at a position, or null where there is none. -/
def itemAt (items : List Value) (position : Int) : Value :=
  if position < 0 then null else items[position.toNat]?.getD null

/-- The byte at a position as a string, or null where there is none. -/
def byteAt (bytes : Bytes) (position : Int) : Value :=
  if position < 0 then null
  else match bytes[position.toNat]? with
    | some byte => string [byte]
    | none => null

/-- The part of a value that a selector names. Sequences have positions only;
a dictionary takes a position as the key of its numeral. -/
def select (value : Value) (selector : Selector) : Except EvalError Value :=
  match value, selector with
  | string bytes, .index position => .ok (byteAt bytes position)
  | list items, .index position => .ok (itemAt items position)
  | dictionary dict, .index position => .ok ((dict.get? (Numeral.ofInt position)).getD null)
  | dictionary dict, .key name => .ok ((dict.get? name).getD null)
  | string _, .key name => blame .access (.indexedByKey .string name)
  | list _, .key name => blame .access (.indexedByKey .list name)
  | other, _ => blame .access (.notIndexable other.kind)

/-- The part of a value that another value selects. -/
def access (value key : Value) : Except EvalError Value :=
  match key.selector? with
  | some selector => value.select selector
  | none => blame .access (.unsupported value.kind key.kind)

/-- The number of bytes, items or keys. -/
def size? : Value → Option Nat
  | string bytes => some bytes.length
  | list items => some items.length
  | dictionary dict => some dict.size
  | _ => none

/-- Only two strings or two numbers can be equal. -/
def isEqual : Value → Value → Bool
  | string a, string b => a == b
  | number a, number b => a.isEqual b
  | _, _ => false

/-- The values that a map calls its function on, in order. -/
def mapped? : Value → Option (List Value)
  | list items => some items
  | dictionary dict => some dict.sortedValues
  | _ => none

/-- The largest count that an operator acts on; larger counts act like it. -/
def maxCount : Nat := 2147483647

/-- Reads the count of a trim or a shift: a whole number that is not negative. -/
def count (operator : Operator) : Value → Except EvalError Nat
  | number value =>
      if value.isWhole && 0 ≤ value.num then .ok (min value.num.toNat maxCount)
      else blame operator (.countNotNatural value)
  | other => blame operator (.countNotNumber other.kind)

end Value

namespace Operator

/-- The refusal of two operands. -/
def refuse (operator : Operator) (a b : Value) : Except EvalError Value :=
  blame operator (.unsupported a.kind b.kind)

/-- Changes a string by a count. -/
def counted (operator : Operator) (change : Bytes → Nat → Bytes) (a b : Value) :
    Except EvalError Value :=
  match a with
  | .string bytes => (b.count operator).map fun count => .string (change bytes count)
  | _ => operator.refuse a b

/-- Joins two strings of one length byte by byte. -/
def bitwise (operator : Operator) (join : UInt8 → UInt8 → UInt8) (a b : Value) :
    Except EvalError Value :=
  match a, b with
  | .string left, .string right =>
      if left.length = right.length then .ok (.string (List.zipWith join left right))
      else blame operator (.lengthsDiffer left.length right.length)
  | _, _ => operator.refuse a b

/-- Applies an operation on fractions to two numbers. -/
def numeric (operator : Operator) (operation : Fraction.Operation) (a b : Value) :
    Except EvalError Value :=
  match a, b with
  | .number x, .number y => .ok (.number (Fraction.operate operation x y))
  | _, _ => operator.refuse a b

/-- The size of the first operand less the second, which is a number. -/
def sizeLess (operator : Operator) (a b : Value) : Except EvalError Value :=
  match b, a.size? with
  | .number number, some size => .ok (.number ((Fraction.ofInt size).subtract number))
  | _, _ => operator.refuse a b

/-- The value of a combination of two values. `call` says what calling a
function does. -/
def apply {σ : Type} (call : Closure Value → Value → Run σ Value) (operator : Operator)
    (a b : Value) : Run σ Value :=
  match operator with
  | .access => Run.ofEval (a.access b)
  | .map =>
      match b, a.mapped? with
      | .closure function, some items => .list <$> items.mapM (call function)
      | _, _ => Run.ofEval (refuse .map a b)
  | .trimLeft => Run.ofEval (counted .trimLeft Buffer.trimLeft a b)
  | .trimRight => Run.ofEval (counted .trimRight Buffer.trimRight a b)
  | .shiftLeft => Run.ofEval (counted .shiftLeft Buffer.shiftLeft a b)
  | .shiftRight => Run.ofEval (counted .shiftRight Buffer.shiftRight a b)
  | .sizeMinus => Run.ofEval (sizeLess .sizeMinus a b)
  | .appendLists => Run.ofEval <|
      match a, b with
      | .list left, .list right => .ok (.list (left ++ right))
      | _, _ => refuse .appendLists a b
  | .appendStrings => Run.ofEval <|
      match a, b with
      | .string left, .string right => .ok (.string (left ++ right))
      | _, _ => refuse .appendStrings a b
  | .merge => Run.ofEval <|
      match a, b with
      | .dictionary left, .dictionary right => .ok (.dictionary (left.merge right))
      | _, _ => refuse .merge a b
  | .equal => pure (.ofBool (a.isEqual b))
  | .sameKind => pure (.ofBool (a.kind = b.kind))
  | .bitAnd => Run.ofEval (bitwise .bitAnd (· &&& ·) a b)
  | .bitOr => Run.ofEval (bitwise .bitOr (· ||| ·) a b)
  | .bitXor => Run.ofEval (bitwise .bitXor (· ^^^ ·) a b)
  | .multiply => Run.ofEval (numeric .multiply .multiply a b)
  | .divide => Run.ofEval (numeric .divide .divide a b)
  | .add => Run.ofEval (numeric .add .add a b)
  | .subtract => Run.ofEval (numeric .subtract .subtract a b)
  | .atMost => Run.ofEval (numeric .atMost .atMost a b)
  | .atLeast => Run.ofEval (numeric .atLeast .atLeast a b)
  | .less => Run.ofEval (numeric .less .less a b)
  | .greater => Run.ofEval (numeric .greater .greater a b)

end Operator

end Juxta
