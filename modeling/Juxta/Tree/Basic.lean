/-
# Program trees

A parsed program is a tree of expressions. Brackets leave an `expression` node
around what they enclose; operators become combinations and juxtaposition
becomes application.
-/

import Juxta.Fraction.Basic

namespace Juxta

/-- A node of a program. Operators stand in a tree by their text, so that a tree
built by hand may hold texts that denote no operator, and `hole` marks a place
where such a tree has no node. -/
inductive Tree
  | expression (child : Tree) (isEmpty : Bool)
  | combination (operator : Bytes) (left right : Tree)
  | application (function argument : Tree)
  | function (parameter : Option Bytes) (body : Tree)
  | list (elements : List Tree)
  | dictionary (entries : List (Tree × Tree))
  | word (name : Bytes)
  | operator (text : Bytes) (pos : Int)
  | number (value : Fraction)
  | string (literal value : Bytes)
  | null
  | hole
  deriving Inhabited

namespace Tree

/-- The expression of no tokens at all. -/
def empty : Tree := expression null true

/-- The expression around a node. -/
def wrap (child : Tree) : Tree := expression child false

/-- Whether a node is an operator that stands for itself. -/
def isOperator : Tree → Bool
  | operator _ _ => true
  | _ => false

/-- Whether a node is the null literal. -/
def isNull : Tree → Bool
  | null => true
  | _ => false

/-- Whether a node is the expression of no tokens. -/
def isEmptyExpression : Tree → Bool
  | expression _ isEmpty => isEmpty
  | _ => false

/-- The node inside an expression. -/
def child : Tree → Tree
  | expression child _ => child
  | other => other

/-- A function literal. An empty name is no parameter. -/
def functionOf (name : Bytes) (body : Tree) : Tree :=
  function (if name.isEmpty then none else some name) body

end Tree

end Juxta
