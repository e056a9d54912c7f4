/-
# Resolving keeps the branches

An operator joins whatever stands on its two sides, and on a sequence that no
grammar allows this may well be another operator. Whichever branches a pass
joins, they are neighbours, so what it has made of the branches so far is always
a list of groupings whose sequences follow one another. After the last pass a
single grouping is left, and the traversal of its tree from left to right meets
every branch once and in order.
-/

import Juxta.Proofs.Tree.Grouping
import Juxta.Proofs.Tree.Pass

namespace Juxta.Tree

namespace Grouping

/-- A grouping whose tree is an operator is that operator. -/
theorem branches_of_tree_eq_operator {grouping : Grouping} {text : Bytes} {pos : Int}
    (same : grouping.tree = operator text pos) : grouping.branches = [operator text pos] := by
  cases grouping with
  | branch tree =>
      obtain rfl : tree = operator text pos := same
      rfl
  | application callee argument => cases same
  | combination symbol offset left right => cases same

end Grouping

namespace Progress

/-- A pass has made groupings of the branches before it, one after the other. If it
waits for a right operand, the last branch was the operator. -/
inductive Groups : Progress → List Tree → Prop
  | settled (groupings : List Grouping) :
      Groups (settled (groupings.map Grouping.tree).reverse)
        (groupings.flatMap Grouping.branches)
  | waiting (groupings : List Grouping) (left : Grouping) (text : Bytes) (pos : Int) :
      Groups (waiting text pos left.tree (groupings.map Grouping.tree).reverse)
        (groupings.flatMap Grouping.branches ++ left.branches ++ [operator text pos])

/-- Groupings with one more at the end. -/
theorem groups_concat (groupings : List Grouping) (last : Grouping) :
    Groups (settled (last.tree :: (groupings.map Grouping.tree).reverse))
      (groupings.flatMap Grouping.branches ++ last.branches) := by
  have more := Groups.settled (groupings ++ [last])
  simpa using more

/-- A step of a pass joins neighbours or leaves them apart. -/
theorem groups_next (tier : List Operator) {progress : Progress} {passed : List Tree}
    (groups : progress.Groups passed) (grouping : Grouping) :
    (progress.next tier grouping.tree).Groups (passed ++ grouping.branches) := by
  cases groups with
  | waiting groupings left text pos =>
      have joined := groups_concat groupings (.combination text pos left grouping)
      simpa [Grouping.tree, Grouping.branches] using joined
  | settled groupings =>
      rcases List.eq_nil_or_concat groupings with rfl | ⟨front, last, rfl⟩
      · simpa using groups_concat [] grouping
      · have apart := groups_concat (front ++ [last]) grouping
        simp only [List.concat_eq_append, List.map_append, List.map_cons, List.map_nil,
          List.reverse_append, List.reverse_cons, List.reverse_nil, List.nil_append,
          List.singleton_append, List.flatMap_append, List.flatMap_cons, List.flatMap_nil,
          List.append_nil] at apart ⊢
        cases kind : grouping.tree.isOperator with
        | true =>
            obtain ⟨text, pos, same⟩ := exists_of_isOperator kind
            rw [same] at apart ⊢
            rw [next_operator]
            split
            · rw [Grouping.branches_of_tree_eq_operator same]
              exact .waiting front last text pos
            · exact apart
        | false =>
            rw [next_operand tier kind]
            split
            · exact apart
            · have joined := groups_concat front (.application last grouping)
              simpa [Grouping.tree, Grouping.branches] using joined

theorem groups_foldl (tier : List Operator) {progress : Progress} {passed : List Tree}
    (groups : progress.Groups passed) (groupings : List Grouping) :
    ((groupings.map Grouping.tree).foldl (next tier) progress).Groups
      (passed ++ groupings.flatMap Grouping.branches) := by
  induction groupings generalizing progress passed with
  | nil => simpa using groups
  | cons grouping groupings ih =>
      have later := ih (groups_next tier groups grouping)
      simpa using later

end Progress

/-- A pass groups the groupings before it. -/
theorem pass_groups {tier : List Operator} {atEnd : Bool} {groupings : List Grouping}
    {joined : List Tree} (passed : pass tier atEnd [] (groupings.map Grouping.tree) = .ok joined) :
    ∃ larger : List Grouping, joined = larger.map Grouping.tree ∧
      larger.flatMap Grouping.branches = groupings.flatMap Grouping.branches := by
  have groups := Progress.groups_foldl tier (.settled []) groupings
  rw [pass_eq_finish_foldl] at passed
  simp only [List.map_nil, List.reverse_nil, List.flatMap_nil, List.nil_append] at groups
  generalize (groupings.map Grouping.tree).foldl (Progress.next tier) (.settled []) = progress,
    groupings.flatMap Grouping.branches = sequence at passed groups
  cases groups with
  | waiting front left text pos => cases passed
  | settled larger =>
      cases passed
      exact ⟨larger, List.reverse_reverse _, rfl⟩

theorem passes_groups {tiers : List (List Operator)} {atEnd : Bool} {groupings : List Grouping}
    {joined : List Tree}
    (passed : passes atEnd tiers (groupings.map Grouping.tree) = .ok joined) :
    ∃ larger : List Grouping, joined = larger.map Grouping.tree ∧
      larger.flatMap Grouping.branches = groupings.flatMap Grouping.branches := by
  induction tiers generalizing groupings with
  | nil =>
      cases passed
      exact ⟨groupings, rfl, rfl⟩
  | cons tier tiers ih =>
      rw [passes] at passed
      split at passed
      next middle once =>
        obtain ⟨larger, rfl, same⟩ := pass_groups once
        obtain ⟨largest, trees, branches⟩ := ih passed
        exact ⟨largest, trees, branches.trans same⟩
      next => cases passed

/-- The passes group the branches, which stand each by itself at first. -/
theorem exists_groupings_of_passes {tiers : List (List Operator)} {atEnd : Bool}
    {branches joined : List Tree} (passed : passes atEnd tiers branches = .ok joined) :
    ∃ groupings : List Grouping, joined = groupings.map Grouping.tree ∧
      groupings.flatMap Grouping.branches = branches := by
  have single : branches = (branches.map Grouping.branch).map Grouping.tree := by
    simp [Function.comp_def, Grouping.tree]
  have sequence : (branches.map Grouping.branch).flatMap Grouping.branches = branches := by
    simp [List.flatMap_map, Grouping.branches]
  rw [single] at passed
  obtain ⟨larger, trees, same⟩ := passes_groups passed
  exact ⟨larger, trees, same.trans sequence⟩

/-- What resolves is a grouping of the branches. -/
theorem exists_grouping_of_resolve {atEnd : Bool} {branches : List Tree} {tree : Tree}
    (resolved : resolve atEnd branches = .ok tree) (nonempty : branches ≠ []) :
    ∃ grouping : Grouping, tree = wrap grouping.tree ∧ grouping.branches = branches := by
  rw [resolve] at resolved
  cases passed : passes atEnd Operator.tiers branches with
  | error error =>
      rw [passed] at resolved
      cases resolved
  | ok joined =>
      rw [passed] at resolved
      obtain ⟨larger, rfl, same⟩ := exists_groupings_of_passes passed
      rcases larger with _ | ⟨grouping, _ | ⟨next, others⟩⟩
      · exact absurd same.symm nonempty
      · cases resolved
        exact ⟨grouping, rfl, by simpa using same⟩
      · cases resolved

/-- What a traversal meets: an operator, of which only the text counts, or any other
branch. -/
inductive Item
  | operator (text : Bytes)
  | branch (tree : Tree)

/-- A branch as it is met by a traversal. -/
def item : Tree → Item
  | operator text _ => .operator text
  | tree => .branch tree

/-- Whether a node joins two branches. -/
def isJoin : Tree → Bool
  | combination _ _ _ | application _ _ => true
  | _ => false

/-- What is met from left to right: a combination has its operator between its operands,
an application its argument behind its function, and any other node is met as a whole. -/
def traversal : Tree → List Item
  | combination text left right => left.traversal ++ .operator text :: right.traversal
  | application callee argument => callee.traversal ++ argument.traversal
  | tree => [tree.item]

theorem traversal_of_not_isJoin {tree : Tree} (plain : tree.isJoin = false) :
    tree.traversal = [tree.item] := by
  cases tree with
  | combination | application => cases plain
  | _ => rfl

/-- The traversal of a grouping goes through its branches. -/
theorem Grouping.traversal_tree (grouping : Grouping) :
    grouping.tree.traversal = grouping.branches.flatMap traversal := by
  induction grouping with
  | branch tree => exact (List.flatMap_singleton traversal tree).symm
  | application callee argument ihCallee ihArgument =>
      rw [tree, traversal, ihCallee, ihArgument, branches, List.flatMap_append]
  | combination text pos left right ihLeft ihRight =>
      rw [tree, traversal, ihLeft, ihRight, branches, List.flatMap_append, List.flatMap_cons]
      rfl

/-- Resolving loses, duplicates and reorders nothing, whatever the branches are. If it
succeeds, its tree groups the branches as they stand, and so a traversal goes through
them in order. Where no branch is a join itself, it meets exactly the branches. -/
theorem resolve_traversal {atEnd : Bool} {branches : List Tree} {tree : Tree}
    (resolved : resolve atEnd branches = .ok tree) (nonempty : branches ≠ []) :
    ∃ grouping : Grouping, tree = wrap grouping.tree ∧ grouping.branches = branches ∧
      tree.child.traversal = branches.flatMap traversal ∧
      ((∀ branch ∈ branches, branch.isJoin = false) →
        tree.child.traversal = branches.map item) := by
  obtain ⟨grouping, rfl, same⟩ := exists_grouping_of_resolve resolved nonempty
  have through : (wrap grouping.tree).child.traversal = branches.flatMap traversal := by
    rw [← same]
    exact grouping.traversal_tree
  refine ⟨grouping, rfl, same, through, fun plain => ?_⟩
  have each : ∀ branch ∈ branches, branch.traversal = [branch.item] :=
    fun branch mem => traversal_of_not_isJoin (plain branch mem)
  rw [through, List.map_eq_flatMap, List.flatMap_def, List.flatMap_def, List.map_congr_left each]

/-- The branches of `- + a * **`, with an operator in front, one behind another and one
that is unknown at the end. -/
def misplacedOperators : List Tree :=
  [operator (utf8 "-") 0, operator (utf8 "+") 2, word (utf8 "a"), operator (utf8 "*") 6,
    operator (utf8 "**") 8]

theorem resolve_traversal_misplacedOperators :
    let tree := wrap (combination (utf8 "+") (operator (utf8 "-") 0)
      (combination (utf8 "*") (word (utf8 "a")) (operator (utf8 "**") 8)))
    resolve true misplacedOperators = .ok tree ∧ misplacedOperators ≠ [] ∧
      (∀ branch ∈ misplacedOperators, branch.isJoin = false) ∧
      tree.child.traversal = [.operator (utf8 "-"), .operator (utf8 "+"), .branch (word (utf8 "a")),
        .operator (utf8 "*"), .operator (utf8 "**")] := by
  intro tree
  have resolved : resolve true misplacedOperators = .ok tree := rfl
  have nonempty : misplacedOperators ≠ [] := List.cons_ne_nil _ _
  have plain : ∀ branch ∈ misplacedOperators, branch.isJoin = false := by
    simp [misplacedOperators, isJoin]
  obtain ⟨-, -, -, -, exactly⟩ := resolve_traversal resolved nonempty
  exact ⟨resolved, nonempty, plain, exactly plain⟩

end Juxta.Tree
