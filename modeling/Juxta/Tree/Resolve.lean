/-
# Resolving precedence

An expression is first a flat sequence of branches: operators and complete
nodes. Each tier of operators makes one pass over the sequence from left to
right. An operator of the tier joins the node before it with the branch after
it, and two nodes without an operator between them become an application. Nodes
that stand side by side are joined in the first pass already, together with the
operators of the first tier, so application binds as tightly as these do. A later
pass forms an application only where an operator took another operator for its
branch, which leaves no operator in front of the node behind it.
-/

import Juxta.Operator
import Juxta.Tree.Basic
import Juxta.Tree.Error

namespace Juxta.Tree

/-- One pass over the branches of an expression. `done` holds the branches that
were passed, the last one first. An operator of the tier takes the branch after
it as it stands, even if that is an operator too; one that stands first stays. -/
def pass (tier : List Operator) (atEnd : Bool) :
    (done branches : List Tree) → Except ParseError (List Tree)
  | done, [] => .ok done.reverse
  | [], branch :: rest => pass tier atEnd [branch] rest
  | last :: done, operator text pos :: rest =>
      if Operator.inTier tier text then
        match rest with
        | [] => .error ⟨pos, .missingRight text atEnd⟩
        | right :: rest => pass tier atEnd (combination text last right :: done) rest
      else pass tier atEnd (operator text pos :: last :: done) rest
  | last :: done, branch :: rest =>
      if last.isOperator then pass tier atEnd (branch :: last :: done) rest
      else pass tier atEnd (application last branch :: done) rest

/-- The passes of several tiers, one after the other. -/
def passes (atEnd : Bool) : List (List Operator) → List Tree → Except ParseError (List Tree)
  | [], branches => .ok branches
  | tier :: tiers, branches =>
      match pass tier atEnd [] branches with
      | .ok joined => passes atEnd tiers joined
      | .error error => .error error

/-- The error of branches that no pass could join: it blames the first operator
among them. -/
def leftover : List Tree → ParseError
  | [] => ⟨ParseError.endPosition, .unresolved⟩
  | operator text pos :: _ =>
      ⟨pos, if Operator.isKnown text then .missingLeft text else .unknownOperator text⟩
  | _ :: rest => leftover rest

/-- The expression that a sequence of branches denotes. `atEnd` tells whether
the tokens end after it. -/
def resolve (atEnd : Bool) (branches : List Tree) : Except ParseError Tree :=
  match passes atEnd Operator.tiers branches with
  | .error error => .error error
  | .ok [] => .ok empty
  | .ok [branch] => .ok (wrap branch)
  | .ok joined => .error (leftover joined)

end Juxta.Tree
