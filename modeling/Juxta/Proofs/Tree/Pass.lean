/-
# A pass as a fold over the branches

A pass looks one branch ahead when it meets an operator of its tier. Here the
operator is kept instead, until the next branch arrives, so that a pass takes
the branches one by one and can be cut at any place. The fold and the pass agree
on every sequence, and the small facts about one step of the fold are all that
later modules use of a pass.
-/

import Juxta.Tree.Resolve

namespace Juxta.Tree

/-- A node that is not an operator is one of the other nodes. -/
theorem isOperator_eq_false_iff {tree : Tree} :
    tree.isOperator = false ↔ ∀ text pos, tree ≠ operator text pos := by
  cases tree <;> simp [isOperator]

theorem exists_of_isOperator {tree : Tree} (isOperator : tree.isOperator) :
    ∃ text pos, tree = operator text pos := by
  cases tree with
  | operator text pos => exact ⟨text, pos, rfl⟩
  | _ => cases isOperator

/-- Where a pass stands between two branches. -/
inductive Progress
  /-- The branches that were passed, the last one first. -/
  | settled (done : List Tree)
  /-- An operator of the tier has its left operand and lacks its right one. -/
  | waiting (text : Bytes) (pos : Int) (left : Tree) (done : List Tree)

namespace Progress

/-- The progress of a pass after one more branch. -/
def next (tier : List Operator) : Progress → Tree → Progress
  | waiting text _ left done, right => settled (combination text left right :: done)
  | settled [], branch => settled [branch]
  | settled (last :: done), operator text pos =>
      if Operator.inTier tier text then waiting text pos last done
      else settled (operator text pos :: last :: done)
  | settled (last :: done), branch =>
      if last.isOperator then settled (branch :: last :: done)
      else settled (application last branch :: done)

/-- What a pass gives when the branches end. -/
def finish (atEnd : Bool) : Progress → Except ParseError (List Tree)
  | settled done => .ok done.reverse
  | waiting text pos _ _ => .error ⟨pos, .missingRight text atEnd⟩

@[simp]
theorem next_waiting (tier : List Operator) (text : Bytes) (pos : Int) (left right : Tree)
    (done : List Tree) :
    next tier (waiting text pos left done) right = settled (combination text left right :: done) :=
  rfl

@[simp]
theorem next_first (tier : List Operator) (branch : Tree) :
    next tier (settled []) branch = settled [branch] :=
  rfl

@[simp]
theorem next_operator (tier : List Operator) (text : Bytes) (pos : Int) (last : Tree)
    (done : List Tree) :
    next tier (settled (last :: done)) (operator text pos) =
      if Operator.inTier tier text then waiting text pos last done
      else settled (operator text pos :: last :: done) :=
  rfl

/-- An operand is taken by the operand before it, or stands alone after an
operator. -/
theorem next_operand (tier : List Operator) {branch : Tree} (operand : branch.isOperator = false)
    (last : Tree) (done : List Tree) :
    next tier (settled (last :: done)) branch =
      if last.isOperator then settled (branch :: last :: done)
      else settled (application last branch :: done) := by
  cases branch with
  | operator text pos => cases operand
  | _ => rfl

end Progress

/-- A pass is the fold of its steps. -/
theorem pass_eq_finish_foldl (tier : List Operator) (atEnd : Bool) (done branches : List Tree) :
    pass tier atEnd done branches =
      (branches.foldl (Progress.next tier) (.settled done)).finish atEnd := by
  fun_induction pass tier atEnd done branches with
  | case1 done => rfl
  | case2 branch rest ih => exact ih
  | case3 last done text pos inside => simp [inside, Progress.finish]
  | case4 last done text pos inside right rest ih => simpa [inside] using ih
  | case5 last done text pos rest outside ih => simpa [outside] using ih
  | case6 last done branch rest ne lastOperator ih =>
      rw [List.foldl_cons, Progress.next_operand tier (isOperator_eq_false_iff.mpr ne),
        if_pos lastOperator]
      exact ih
  | case7 last done branch rest ne lastOperand ih =>
      rw [List.foldl_cons, Progress.next_operand tier (isOperator_eq_false_iff.mpr ne),
        if_neg lastOperand]
      exact ih

/-- What the pass of every tier keeps, all the passes keep. -/
theorem kept_by_passes {holds : List Tree → Prop} {atEnd : Bool} {tiers : List (List Operator)}
    (kept : ∀ tier ∈ tiers, ∀ {branches joined : List Tree}, holds branches →
      pass tier atEnd [] branches = .ok joined → holds joined)
    {branches joined : List Tree} (before : holds branches)
    (passed : passes atEnd tiers branches = .ok joined) : holds joined := by
  induction tiers generalizing branches with
  | nil =>
      cases passed
      exact before
  | cons tier tiers ih =>
      rw [passes] at passed
      split at passed
      next middle once =>
        have step := kept tier List.mem_cons_self before once
        exact ih (fun other mem => kept other (List.mem_cons_of_mem tier mem)) step passed
      next => cases passed

end Juxta.Tree
