/-
# Parse errors

An error names its cause. Errors that more source text could mend are called
incomplete; the interactive prompt then asks for another line.
-/

import Juxta.Text.Numeral
import Juxta.Text.Quoted

namespace Juxta

/-- What an expression still lacked when the tokens ended. -/
inductive ParseError.Missing
  | closeParen
  | closeBracket
  | closeBrace
  | parameter
  deriving DecidableEq, Repr

/-- Why a token sequence is not a program. -/
inductive ParseError.Cause
  /-- Tokens are left over after a complete program. -/
  | unexpected (text : Bytes)
  /-- The tokens ended too early. -/
  | endOfInput (missing : Missing)
  /-- A token has a kind that no program holds. -/
  | unknownKind (name : Bytes)
  /-- A parenthesis that was opened at `opened` meets another terminator. -/
  | unclosedParen (opened : Int) (found : Bytes)
  /-- A terminator stands where a function literal has its parameter. -/
  | malformedFunction (found : Bytes)
  /-- A dictionary key is followed by a terminator that cannot follow it. -/
  | expectedColon (found : Bytes)
  /-- An operator has nothing on its right, where the tokens may have ended. -/
  | missingRight (operator : Bytes) (atEnd : Bool)
  /-- An operator has nothing on its left. -/
  | missingLeft (operator : Bytes)
  /-- An operator token denotes no operator. -/
  | unknownOperator (operator : Bytes)
  /-- Nodes are left over that no operator joins. -/
  | unresolved
  deriving DecidableEq, Repr

/-- A cause with the byte offset of the token to blame. A negative offset means
the end of the input. -/
structure ParseError where
  pos : Int
  cause : ParseError.Cause
  deriving DecidableEq, Repr

namespace ParseError

/-- The position of errors that blame no token. -/
def endPosition : Int := -1

/-- The error of tokens that end too early. -/
def ended (missing : Missing) : ParseError := ⟨endPosition, .endOfInput missing⟩

/-- Whether more source text could mend an error. -/
def isIncomplete (error : ParseError) : Bool :=
  match error.cause with
  | .endOfInput _ => true
  | .missingRight _ atEnd => atEnd
  | _ => false

/-- The wording of what is missing. -/
def Missing.text : Missing → Bytes
  | closeParen => utf8 "\")\""
  | closeBracket => utf8 "\"]\""
  | closeBrace => utf8 "\"\x7d\""
  | parameter => utf8 "function parameter"

/-- The wording of a cause. -/
def Cause.message : Cause → Bytes
  | unexpected text => utf8 "unexpected " ++ Quoted.ofBytes text
  | endOfInput missing => utf8 "expected " ++ missing.text
  | unknownKind name => utf8 "unknown token type " ++ name
  | unclosedParen opened found =>
      utf8 "expected \")\" to close \"(\" at " ++ Numeral.ofInt opened ++ utf8 ", found " ++
        Quoted.ofBytes found
  | malformedFunction found =>
      utf8 "malformed function literal: " ++ Quoted.ofBytes found ++ utf8 " after \\"
  | expectedColon found => utf8 "expected \":\" in dictionary, found " ++ Quoted.ofBytes found
  | missingRight operator _ => utf8 "missing right operand for " ++ Quoted.ofBytes operator
  | missingLeft operator => utf8 "missing left operand for " ++ Quoted.ofBytes operator
  | unknownOperator operator => utf8 "unknown operator " ++ Quoted.ofBytes operator
  | unresolved => utf8 "unresolved expression"

/-- The wording of an error, which starts with its place. -/
def message (error : ParseError) : Bytes :=
  utf8 "parse error at " ++
    (if error.pos < 0 then utf8 "end of input" else Numeral.ofInt error.pos) ++
    utf8 ": " ++ error.cause.message

end ParseError

end Juxta
