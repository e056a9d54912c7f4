/-
# Values

A value is a number, a byte string, null, a list, a dictionary or a function.
Functions are closures: they pair a body with the scope in which it was
written, or name a function of the host. Values never change once made.
-/

import Juxta.Tree.Basic
import Juxta.Value.Dict

namespace Juxta

/-- Where a word is looked up: first among the arguments of the calls around it,
the innermost first, then at a level of the environment. -/
structure Scope (α : Type) where
  locals : List (Bytes × α)
  level : Nat

/-- A function value. -/
inductive Closure (α : Type)
  | host (name : Bytes)
  | lambda (scope : Scope α) (parameter : Option Bytes) (body : Tree)

/-- A value of the language. A host may also hand in values of its own, which
are foreign, or fail to hand in any, which is `nothing`. -/
inductive Value
  | number (value : Fraction)
  | string (bytes : Bytes)
  | null
  | list (items : List Value)
  | dictionary (entries : Dict Value)
  | closure (function : Closure Value)
  | foreign
  | nothing
  deriving Inhabited

namespace Value

/-- The kinds of values. -/
inductive Kind
  | number | string | null | list | dictionary | closure | foreign | nothing
  deriving DecidableEq, Repr

/-- How a kind is named. -/
def Kind.text : Kind → Bytes
  | number => utf8 "NUMBER"
  | string => utf8 "STRING"
  | null => utf8 "NULL"
  | list => utf8 "LIST"
  | dictionary => utf8 "DICTIONARY"
  | closure => utf8 "CLOSURE"
  | foreign => utf8 "FOREIGN"
  | nothing => utf8 "nothing"

/-- The kind of a value. -/
def kind : Value → Kind
  | number _ => .number
  | string _ => .string
  | null => .null
  | list _ => .list
  | dictionary _ => .dictionary
  | closure _ => .closure
  | foreign => .foreign
  | nothing => .nothing

/-- Truth values are numbers. -/
def ofBool (value : Bool) : Value := number (Fraction.ofBool value)

end Value

/-- The scope inside a call: the argument is bound to the parameter, if there is one. -/
def Scope.bind {α : Type} (scope : Scope α) (parameter : Option Bytes) (argument : α) : Scope α :=
  match parameter with
  | none => scope
  | some name => { scope with locals := (name, argument) :: scope.locals }

end Juxta
