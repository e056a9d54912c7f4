/-
# Failures

A program can fail while it is read, while it is evaluated, or in a function of
the host. Failures of the host pass through unchanged. A program that calls too
deeply is cut off, which is a failure of its own kind and says nothing about the
program's meaning.
-/

import Juxta.Token.Basic
import Juxta.Tree.Error
import Juxta.Value.Basic

namespace Juxta

open Value (Kind)

/-- Why an operator or a call lies outside its domain. -/
inductive EvalError.Cause
  | operatorAsValue
  | unknownOperator
  | unknownNode
  | notFunction (kind : Kind)
  | keyNotString (kind : Kind)
  | unsupported (left right : Kind)
  | lengthsDiffer (left right : Nat)
  | indexedByKey (kind : Kind) (key : Bytes)
  | notIndexable (kind : Kind)
  | countNotNumber (kind : Kind)
  | countNotNatural (value : Fraction)
  deriving DecidableEq, Repr

/-- A cause with the operator to blame, which is empty if there is none. -/
structure EvalError where
  operator : Bytes
  cause : EvalError.Cause
  deriving DecidableEq, Repr

namespace EvalError

/-- The wording of a cause. -/
def Cause.message : Cause → Bytes
  | operatorAsValue => utf8 "operator used as a value"
  | unknownOperator => utf8 "unknown operator"
  | unknownNode => utf8 "unknown node <nil>"
  | notFunction kind => utf8 "cannot apply " ++ kind.text
  | keyNotString kind => utf8 "dictionary key must be a STRING, found " ++ kind.text
  | unsupported left right =>
      utf8 "unsupported operands " ++ left.text ++ utf8 " and " ++ right.text
  | lengthsDiffer left right =>
      utf8 "buffers differ in length (" ++ Numeral.ofNat left ++ utf8 " and " ++
        Numeral.ofNat right ++ utf8 ")"
  | indexedByKey kind key => kind.text ++ utf8 " indexed by key " ++ Quoted.ofBytes key
  | notIndexable kind => utf8 "cannot index " ++ kind.text
  | countNotNumber kind => utf8 "count must be a NUMBER, found " ++ kind.text
  | countNotNatural value =>
      utf8 "count must be a non-negative integer, found " ++ value.text

/-- The wording of an error. -/
def message (error : EvalError) : Bytes :=
  (if error.operator.isEmpty then utf8 "eval error: "
    else utf8 "eval error in " ++ Quoted.ofBytes error.operator ++ utf8 ": ") ++
    error.cause.message

end EvalError

/-- The first failure of any stage. -/
inductive Failure
  | lex (error : LexError)
  | parse (error : ParseError)
  | eval (error : EvalError)
  | host (text : Bytes)
  | tooDeep
  deriving DecidableEq, Repr

namespace Failure

/-- The wording of a failure. -/
def message : Failure → Bytes
  | lex error => error.message
  | parse error => error.message
  | eval error => error.message
  | host text => text
  | tooDeep => utf8 "calls nested too deeply"

/-- Whether more source text could mend a failure. -/
def isIncomplete : Failure → Bool
  | lex _ => true
  | parse error => error.isIncomplete
  | _ => false

end Failure

end Juxta
