/-
# Groupings of a flat expression

A flat expression is a sequence of branches with operators between some of them.
A grouping says how its branches are put together: which neighbours are joined
first, by an operator or by mere juxtaposition. Every grouping has a tree, and
read from left to right it has the sequence of branches that it puts together.

The tiers of the operators single out one grouping of a sequence. This module
states what it means to respect the tiers and proves that no sequence has two
groupings that do.
-/

import Juxta.Tree.Resolve

namespace Juxta

namespace Operator

/-- The number of the tier that a text belongs to, where the tightest tier has
number one. A text that denotes no operator gets a number past the last tier. -/
def tierNumber (text : Bytes) : Nat := tiers.findIdx (inTier · text) + 1

theorem tierNumber_pos (text : Bytes) : 0 < tierNumber text := Nat.succ_pos _

/-- A text that denotes an operator belongs to one of the tiers. -/
theorem tierNumber_le_of_isKnown {text : Bytes} (known : isKnown text) :
    tierNumber text ≤ tiers.length := by
  obtain ⟨tier, mem, inside⟩ := List.any_eq_true.mp known
  exact List.findIdx_lt_length_of_exists ⟨tier, mem, inside⟩

/-- The tiers are disjoint, so a text is in the tier of its number and in no
other one. -/
theorem inTier_getElem_iff (text : Bytes) (index : Nat) (bound : index < tiers.length) :
    inTier tiers[index] text ↔ tierNumber text = index + 1 := by
  constructor
  · intro inside
    obtain ⟨operator, mem, same⟩ := List.any_eq_true.mp inside
    obtain rfl : operator.text = text := by simpa using same
    have disjoint : ∀ index, (bound : index < tiers.length) →
        ∀ operator ∈ tiers[index], tierNumber operator.text = index + 1 := by decide
    exact disjoint index bound operator mem
  · intro number
    have found : tiers.findIdx (inTier · text) = index := by simpa [tierNumber] using number
    subst found
    exact List.findIdx_getElem (w := bound)

end Operator

namespace Tree

/-- A way to put a sequence of branches together. The operator of a combination
keeps its offset, so that a grouping determines its sequence. -/
inductive Grouping
  | branch (tree : Tree)
  | application (callee argument : Grouping)
  | combination (text : Bytes) (pos : Int) (left right : Grouping)

namespace Grouping

/-- The tree that a grouping builds. -/
def tree : Grouping → Tree
  | branch tree => tree
  | application callee argument => .application callee.tree argument.tree
  | combination text _ left right => .combination text left.tree right.tree

/-- The branches and operators of a grouping from left to right. -/
def branches : Grouping → List Tree
  | branch tree => [tree]
  | application callee argument => callee.branches ++ argument.branches
  | combination text pos left right => left.branches ++ operator text pos :: right.branches

/-- How loosely the root of a grouping binds. A single branch has level zero, an
application shares level one with the operator of the first tier, and any other
combination has the number of its operator's tier. -/
def level : Grouping → Nat
  | branch _ => 0
  | application _ _ => 1
  | combination text _ _ _ => Operator.tierNumber text

/-- A grouping respects the tiers when every node binds its left part at most as
loosely as itself and its right part more tightly. At level one the right part
is then a single branch. Operators only stand between operands, so none of them
is a branch of its own. -/
def RespectsTiers : Grouping → Prop
  | branch tree => tree.isOperator = false
  | application callee argument =>
      callee.RespectsTiers ∧ argument.RespectsTiers ∧ callee.level ≤ 1 ∧ argument.level < 1
  | combination text _ left right =>
      left.RespectsTiers ∧ right.RespectsTiers ∧ left.level ≤ Operator.tierNumber text ∧
        right.level < Operator.tierNumber text

/-- Only an operator that is a branch of its own is an operator as a tree. -/
theorem isOperator_tree {grouping : Grouping} (respects : grouping.RespectsTiers) :
    grouping.tree.isOperator = false := by
  cases grouping with
  | branch tree => exact respects
  | application callee argument => rfl
  | combination text pos left right => rfl

theorem branches_length_pos (grouping : Grouping) : 0 < grouping.branches.length := by
  induction grouping with
  | branch tree => exact Nat.one_pos
  | application callee argument ihCallee _ =>
      rw [branches, List.length_append]
      exact Nat.add_pos_left ihCallee _
  | combination text pos left right ihLeft _ =>
      rw [branches, List.length_append]
      exact Nat.add_pos_left ihLeft _

theorem operator_mem_branches (left right : Grouping) (text : Bytes) (pos : Int) :
    operator text pos ∈ (combination text pos left right).branches := by
  simp [branches]

/-- At level zero there is only a single branch. -/
theorem eq_branch_of_level_eq_zero {grouping : Grouping} (zero : grouping.level = 0) :
    ∃ tree, grouping = branch tree := by
  cases grouping with
  | branch tree => exact ⟨tree, rfl⟩
  | application callee argument => cases zero
  | combination text pos left right =>
      exact absurd zero (Nat.ne_of_gt (Operator.tierNumber_pos text))

/-- No operator of a grouping binds more loosely than its root. -/
theorem tierNumber_le_level {grouping : Grouping} (respects : grouping.RespectsTiers)
    {text : Bytes} {pos : Int} (mem : operator text pos ∈ grouping.branches) :
    Operator.tierNumber text ≤ grouping.level := by
  induction grouping with
  | branch tree =>
      obtain rfl := List.mem_singleton.mp mem
      cases respects
  | application callee argument ihCallee ihArgument =>
      obtain ⟨hcallee, hargument, calleeLevel, argumentLevel⟩ := respects
      rcases List.mem_append.mp mem with mem | mem
      · exact Nat.le_trans (ihCallee hcallee mem) calleeLevel
      · exact Nat.le_trans (ihArgument hargument mem) (Nat.le_of_lt argumentLevel)
  | combination symbol offset left right ihLeft ihRight =>
      obtain ⟨hleft, hright, leftLevel, rightLevel⟩ := respects
      rcases List.mem_append.mp mem with mem | mem
      · exact Nat.le_trans (ihLeft hleft mem) leftLevel
      · rcases List.mem_cons.mp mem with same | mem
        · injection same with same _
          exact Nat.le_of_eq (congrArg Operator.tierNumber same)
        · exact Nat.le_trans (ihRight hright mem) (Nat.le_of_lt rightLevel)

/-- The sequence of a grouping ends with an operand. -/
theorem exists_getLast?_branches {grouping : Grouping} (respects : grouping.RespectsTiers) :
    ∃ last, grouping.branches.getLast? = some last ∧ last.isOperator = false := by
  induction grouping with
  | branch tree => exact ⟨tree, rfl, respects⟩
  | application callee argument _ ihArgument =>
      obtain ⟨last, same, operand⟩ := ihArgument respects.2.1
      exact ⟨last, by simp [branches, List.getLast?_append, same], operand⟩
  | combination symbol offset left right _ ihRight =>
      obtain ⟨last, same, operand⟩ := ihRight respects.2.1
      exact ⟨last, by simp [branches, List.getLast?_append, List.getLast?_cons, same], operand⟩

theorem branches_ne_append_operator {grouping : Grouping} (respects : grouping.RespectsTiers)
    (front : List Tree) (text : Bytes) (pos : Int) :
    grouping.branches ≠ front ++ [operator text pos] := by
  intro same
  obtain ⟨last, ending, operand⟩ := exists_getLast?_branches respects
  rw [same, List.getLast?_concat] at ending
  injection ending with ending
  subst ending
  cases operand

/-- A sequence splits in only one way at an operator behind which no operator
binds as loosely. -/
theorem eq_of_split_at_last {left right left' right' : List Tree} {text text' : Bytes}
    {pos pos' : Int} (tier : Operator.tierNumber text = Operator.tierNumber text')
    (later : ∀ symbol offset, operator symbol offset ∈ right →
      Operator.tierNumber symbol < Operator.tierNumber text)
    (later' : ∀ symbol offset, operator symbol offset ∈ right' →
      Operator.tierNumber symbol < Operator.tierNumber text')
    (same : left ++ operator text pos :: right = left' ++ operator text' pos' :: right') :
    left = left' ∧ text = text' ∧ pos = pos' ∧ right = right' := by
  rcases List.append_eq_append_iff.mp same with ⟨middle, rfl, tail⟩ | ⟨middle, rfl, tail⟩
  · cases middle with
    | nil =>
        simp only [List.nil_append, List.cons.injEq, Tree.operator.injEq] at tail
        exact ⟨by simp, tail.1.1, tail.1.2, tail.2⟩
    | cons head middle =>
        -- The second operator would stand behind the first one.
        have behind : operator text' pos' ∈ right := by
          injection tail with _ tail
          simp [tail]
        exact absurd (later text' pos' behind) (by omega)
  · cases middle with
    | nil =>
        simp only [List.nil_append, List.cons.injEq, Tree.operator.injEq] at tail
        exact ⟨by simp, tail.1.1.symm, tail.1.2.symm, tail.2.symm⟩
    | cons head middle =>
        have behind : operator text pos ∈ right' := by
          injection tail with _ tail
          simp [tail]
        exact absurd (later' text pos behind) (by omega)

/-- An application and a combination never have the same sequence: before the
last branch the one has an operand and the other an operator. -/
theorem application_branches_ne_combination {callee argument left right : Grouping}
    {text : Bytes} {pos : Int} (application : (application callee argument).RespectsTiers)
    (combination : (combination text pos left right).RespectsTiers) :
    (Grouping.application callee argument).branches ≠
      (Grouping.combination text pos left right).branches := by
  intro same
  have mem : operator text pos ∈ (Grouping.application callee argument).branches :=
    same ▸ operator_mem_branches left right text pos
  have first : Operator.tierNumber text ≤ 1 := tierNumber_le_level application mem
  have single : right.level = 0 := by have := combination.2.2.2; omega
  obtain ⟨branch, rfl⟩ := eq_branch_of_level_eq_zero single
  have single : argument.level = 0 := by have := application.2.2.2; omega
  obtain ⟨branch', rfl⟩ := eq_branch_of_level_eq_zero single
  have shorter : callee.branches = left.branches ++ [operator text pos] := by
    have split : callee.branches ++ [branch'] =
        left.branches ++ [operator text pos] ++ [branch] := by
      simpa [branches] using same
    exact (List.append_inj' split rfl).1
  exact branches_ne_append_operator application.1 _ _ _ shorter

/-- A sequence of branches has at most one grouping that respects the tiers. -/
theorem eq_of_branches_eq {first second : Grouping} (respects : first.RespectsTiers)
    (respects' : second.RespectsTiers) (same : first.branches = second.branches) :
    first = second := by
  induction first generalizing second with
  | branch tree =>
      have single := congrArg List.length same
      cases second with
      | branch tree' => simpa [branches] using same
      | application callee argument =>
          have := callee.branches_length_pos
          have := argument.branches_length_pos
          simp only [branches, List.length_append, List.length_singleton] at single
          omega
      | combination text pos left right =>
          have := left.branches_length_pos
          simp only [branches, List.length_append, List.length_cons, List.length_nil] at single
          omega
  | application callee argument ihCallee ihArgument =>
      cases second with
      | branch tree' =>
          have single := congrArg List.length same
          have := callee.branches_length_pos
          have := argument.branches_length_pos
          simp only [branches, List.length_append, List.length_singleton] at single
          omega
      | application callee' argument' =>
          obtain ⟨tree, rfl⟩ := eq_branch_of_level_eq_zero (Nat.lt_one_iff.mp respects.2.2.2)
          obtain ⟨tree', rfl⟩ := eq_branch_of_level_eq_zero (Nat.lt_one_iff.mp respects'.2.2.2)
          obtain ⟨sameCallee, sameArgument⟩ := List.append_inj' same rfl
          rw [ihCallee respects.1 respects'.1 sameCallee,
            ihArgument respects.2.1 respects'.2.1 sameArgument]
      | combination text pos left right =>
          exact absurd same (application_branches_ne_combination respects respects')
  | combination text pos left right ihLeft ihRight =>
      cases second with
      | branch tree' =>
          have single := congrArg List.length same
          have := left.branches_length_pos
          simp only [branches, List.length_append, List.length_cons, List.length_nil] at single
          omega
      | application callee' argument' =>
          exact absurd same.symm (application_branches_ne_combination respects' respects)
      | combination text' pos' left' right' =>
          have upper : Operator.tierNumber text ≤ Operator.tierNumber text' :=
            tierNumber_le_level respects' (same ▸ operator_mem_branches left right text pos)
          have lower : Operator.tierNumber text' ≤ Operator.tierNumber text :=
            tierNumber_le_level respects (same ▸ operator_mem_branches left' right' text' pos')
          obtain ⟨hleft, hright, _, rightLevel⟩ := respects
          obtain ⟨hleft', hright', _, rightLevel'⟩ := respects'
          obtain ⟨sameLeft, rfl, rfl, sameRight⟩ := eq_of_split_at_last
            (Nat.le_antisymm upper lower)
            (fun _ _ mem => Nat.lt_of_le_of_lt (tierNumber_le_level hright mem) rightLevel)
            (fun _ _ mem => Nat.lt_of_le_of_lt (tierNumber_le_level hright' mem) rightLevel') same
          rw [ihLeft hleft hleft' sameLeft, ihRight hright hright' sameRight]

end Grouping

end Tree

end Juxta
