/-
# From tokens to trees

The reader takes the tokens one by one. For every bracket and function literal
that is still open it keeps a frame with the branches of the expression around
it. A terminator or the end of the tokens completes the innermost expression;
the body of a function literal ends together with the expression around it.
-/

import Juxta.Token.Basic
import Juxta.Tree.Resolve

namespace Juxta.Tree

/-- What an open bracket has collected so far. The elements and entries stand
last one first. -/
inductive Opening
  /-- After an opening parenthesis at an offset. -/
  | group (pos : Int)
  /-- Inside a list. -/
  | items (elements : List Tree)
  /-- Inside a dictionary, before or in a key. -/
  | atKey (entries : List (Tree × Tree))
  /-- Inside a dictionary, after a key and its colon. -/
  | atValue (entries : List (Tree × Tree)) (key : Tree)

/-- Something unfinished, with the branches of the expression around it, last
one first. -/
inductive Frame
  /-- An open bracket. -/
  | bracket (opening : Opening) (before : List Tree)
  /-- A function literal of which the body is being read. -/
  | body (parameter : Bytes) (before : List Tree)

/-- What the tokens lack when they end inside an opening. -/
def Opening.missing : Opening → ParseError.Missing
  | group _ => .closeParen
  | items _ => .closeBracket
  | atKey _ => .closeBrace
  | atValue _ _ => .closeBrace

/-- The innermost open bracket, with what surrounds it. -/
structure Enclosing where
  opening : Opening
  before : List Tree
  frames : List Frame

/-- Completes the innermost expression and, with it, every function body that
ends there. What is left are its tree and the bracket around it, if any. -/
def settle (atEnd : Bool) (frames : List Frame) (branches : List Tree) :
    Except ParseError (Tree × Option Enclosing) :=
  match resolve atEnd branches.reverse with
  | .error error => .error error
  | .ok tree =>
      match frames with
      | [] => .ok (tree, none)
      | .bracket opening before :: frames => .ok (tree, some ⟨opening, before, frames⟩)
      | .body parameter before :: frames =>
          settle atEnd frames (functionOf parameter tree :: before)

/-- What a terminator does to the opening around a completed expression. -/
inductive Closing
  /-- The opening is complete and becomes a branch. -/
  | complete (branch : Tree)
  /-- The opening goes on after the terminator. -/
  | goOn (opening : Opening)
  /-- The terminator does not belong there. -/
  | reject (error : ParseError)

/-- Ends a list with the element before the bracket, unless that is empty, or
adds the element and goes on after any other terminator. -/
def closeList (elements : List Tree) (element : Tree) (token : Token) : Closing :=
  if token.isMark Ascii.closeBracket then
    .complete (list (if element.isEmptyExpression then elements.reverse
      else (element :: elements).reverse))
  else .goOn (.items (element :: elements))

/-- Ends a dictionary after a key, where a null key adds no entry, adds the
entry of a key that is its own value, or goes on to the value. -/
def closeKey (entries : List (Tree × Tree)) (key : Tree) (token : Token) : Closing :=
  if token.isMark Ascii.closeBrace then
    .complete (dictionary (if key.child.isNull then entries.reverse
      else ((key.child, key) :: entries).reverse))
  else if token.isMark Ascii.comma then .goOn (.atKey ((key.child, key) :: entries))
  else if token.isMark Ascii.colon then .goOn (.atValue entries key.child)
  else .reject ⟨token.pos, .expectedColon token.text⟩

/-- Adds the entry of a key and its value, and ends the dictionary or goes on
after any other terminator. -/
def closeValue (entries : List (Tree × Tree)) (key value : Tree) (token : Token) : Closing :=
  if token.isMark Ascii.closeBrace then
    .complete (dictionary ((key, value) :: entries).reverse)
  else .goOn (.atKey ((key, value) :: entries))

/-- Only its own bracket closes a parenthesis. -/
def closeGroup (opened : Int) (inner : Tree) (token : Token) : Closing :=
  if token.isMark Ascii.closeParen then .complete inner
  else .reject ⟨token.pos, .unclosedParen opened token.text⟩

/-- What a terminator does after a completed expression in an opening. -/
def Opening.close (opening : Opening) (tree : Tree) (token : Token) : Closing :=
  match opening with
  | group pos => closeGroup pos tree token
  | items elements => closeList elements tree token
  | atKey entries => closeKey entries tree token
  | atValue entries key => closeValue entries key tree token

/-- The opening that a bracket token starts. Brackets of any other text start
nothing and are skipped. -/
def Opening.ofBracket? (token : Token) : Option Opening :=
  if token.text == [Ascii.openParen] then some (.group token.pos)
  else if token.text == [Ascii.openBracket] then some (.items [])
  else if token.text == [Ascii.openBrace] then some (.atKey [])
  else none

/-- The parameter that the token after a backslash names: only a word names one. -/
def parameterName (token : Token) : Bytes :=
  match token.kind with
  | .word => token.text
  | _ => []

/-- Reads one expression inside the given frames, of which `branches` are read
already, last one first. The tokens that are left are none, or start with a
terminator that belongs to no frame. -/
def read (frames : List Frame) (branches : List Tree) :
    List Token → Except ParseError (Tree × List Token)
  | [] =>
      match settle true frames branches with
      | .error error => .error error
      | .ok (tree, none) => .ok (tree, [])
      | .ok (_, some enclosing) => .error (ParseError.ended enclosing.opening.missing)
  | token :: rest =>
      if token.isTerminator then
        match settle false frames branches with
        | .error error => .error error
        | .ok (tree, none) => .ok (tree, token :: rest)
        | .ok (tree, some ⟨opening, before, frames⟩) =>
            match opening.close tree token with
            | .complete branch => read frames (branch :: before) rest
            | .goOn opening => read (.bracket opening before :: frames) [] rest
            | .reject error => .error error
      else
        match token.kind with
        | .bracket =>
            match Opening.ofBracket? token with
            | some opening => read (.bracket opening branches :: frames) [] rest
            | none => read frames branches rest
        | .special =>
            match rest with
            | [] => .error (ParseError.ended .parameter)
            | parameter :: rest =>
                if parameter.isTerminator then
                  .error ⟨token.pos, .malformedFunction parameter.text⟩
                else read (.body (parameterName parameter) branches :: frames) [] rest
        | .word => read frames (word token.text :: branches) rest
        | .operator => read frames (operator token.text token.pos :: branches) rest
        | .number value => read frames (number value :: branches) rest
        | .string value => read frames (string token.text value :: branches) rest
        | .null => read frames (null :: branches) rest
        | .foreign name => .error ⟨token.pos, .unknownKind name⟩

/-- Reads an expression up to the end of the tokens or to a terminator, which is
left where it is. -/
def readExpression (tokens : List Token) : Except ParseError (Tree × List Token) :=
  read [] [] tokens

/-- The tree of a program. -/
def parse (tokens : List Token) : Except ParseError Tree :=
  match readExpression tokens with
  | .error error => .error error
  | .ok (tree, []) => .ok tree
  | .ok (_, token :: _) => .error ⟨token.pos, .unexpected token.text⟩

end Juxta.Tree
