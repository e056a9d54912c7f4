/-
# Precedence is resolved by the tiers

The passes over a sequence of branches build exactly one tree: the one whose
grouping respects the tiers. The proof follows a chain of operands through the
passes. Between two neighbouring operands stands a join, which is an operator or
mere juxtaposition. The pass of a tier contracts the joins of its level and
leaves the looser ones, so that after the last pass a single operand remains.
-/

import Juxta.Proofs.Tree.Grouping
import Juxta.Proofs.Tree.Pass
import Mathlib.Data.List.Chain
import Mathlib.Data.List.Induction

namespace Juxta.Tree

/-- A sequence of branches in which operators stand between operands: it starts
and ends with an operand, and no two operators are neighbours. -/
structure IsOperandSequence (branches : List Tree) : Prop where
  starts : ∃ first, branches.head? = some first ∧ first.isOperator = false
  ends : ∃ last, branches.getLast? = some last ∧ last.isOperator = false
  separated : branches.IsChain fun left right => ¬ (left.isOperator ∧ right.isOperator)

/-- What stands between two neighbouring operands. -/
inductive Join
  | juxtaposed
  | operator (text : Bytes) (pos : Int)

namespace Join

/-- How loosely a join binds, on the scale of the groupings. -/
def level : Join → Nat
  | juxtaposed => 1
  | operator text _ => Operator.tierNumber text

theorem level_pos (join : Join) : 1 ≤ join.level := by
  cases join with
  | juxtaposed => exact Nat.le_refl 1
  | operator text pos => exact Operator.tierNumber_pos text

/-- The branches that a join puts between its operands. -/
def branches : Join → List Tree
  | juxtaposed => []
  | operator text pos => [.operator text pos]

/-- The grouping of two joined operands. -/
def group : Join → Grouping → Grouping → Grouping
  | juxtaposed, left, right => .application left right
  | operator text pos, left, right => .combination text pos left right

theorem group_branches (join : Join) (left right : Grouping) :
    (join.group left right).branches = left.branches ++ join.branches ++ right.branches := by
  cases join <;> simp [group, branches, Grouping.branches]

theorem group_level (join : Join) (left right : Grouping) :
    (join.group left right).level = join.level := by
  cases join <;> rfl

theorem group_respectsTiers {join : Join} {left right : Grouping} (hleft : left.RespectsTiers)
    (hright : right.RespectsTiers) (leftLevel : left.level ≤ join.level)
    (rightLevel : right.level < join.level) : (join.group left right).RespectsTiers := by
  cases join <;> exact ⟨hleft, hright, leftLevel, rightLevel⟩

end Join

/-- An operand of a chain with the join in front of it. -/
structure Link where
  join : Join
  operand : Grouping

/-- A chain: a first operand and the operands linked to it, in order. -/
structure Chain where
  first : Grouping
  links : List Link

namespace Chain

/-- The sequence of trees that a pass sees. -/
def trees (chain : Chain) : List Tree :=
  chain.first.tree :: chain.links.flatMap fun link => link.join.branches ++ [link.operand.tree]

/-- The branches of the flat expression that the chain stands for. -/
def branches (chain : Chain) : List Tree :=
  chain.first.branches ++
    chain.links.flatMap fun link => link.join.branches ++ link.operand.branches

/-- The chain after the joins of one level are contracted from left to right. -/
def contract (level : Nat) (first : Grouping) : List Link → Chain
  | [] => ⟨first, []⟩
  | link :: links =>
      if link.join.level = level then contract level (link.join.group first link.operand) links
      else
        let rest := contract level link.operand links
        ⟨first, ⟨link.join, rest.first⟩ :: rest.links⟩

/-- The links of a chain before the pass of a level: the operands bind more
tightly than the level, and the joins do not. -/
def LinksOpenAt (level : Nat) (links : List Link) : Prop :=
  ∀ link ∈ links, link.operand.RespectsTiers ∧ link.operand.level < level ∧
    level ≤ link.join.level

/-- A chain before the pass of a level. -/
structure IsOpenAt (level : Nat) (chain : Chain) : Prop where
  respects : chain.first.RespectsTiers
  tighter : chain.first.level < level
  links : LinksOpenAt level chain.links

/-- Contracting joins keeps the branches. -/
theorem contract_branches (level : Nat) (first : Grouping) (links : List Link) :
    (contract level first links).branches = (Chain.mk first links).branches := by
  induction links generalizing first with
  | nil => rfl
  | cons link links ih =>
      rw [contract]
      split
      · rw [ih]
        simp [branches, Join.group_branches]
      · have rest := ih link.operand
        simp only [branches, List.flatMap_cons] at rest ⊢
        simp [rest]

/-- Contracting the joins of a level makes a chain that waits for the next one. -/
theorem contract_isOpenAt {level : Nat} {first : Grouping} {links : List Link}
    (respects : first.RespectsTiers) (tight : first.level ≤ level)
    (isOpen : LinksOpenAt level links) :
    IsOpenAt (level + 1) (contract level first links) := by
  induction links generalizing first with
  | nil => exact ⟨respects, Nat.lt_succ_of_le tight, by simp [contract, LinksOpenAt]⟩
  | cons link links ih =>
      obtain ⟨operand, operandLevel, joinLevel⟩ := isOpen link (by simp)
      have later : LinksOpenAt level links := fun other mem => isOpen other (by simp [mem])
      rw [contract]
      split
      next same =>
        refine ih ?_ ?_ later
        · exact Join.group_respectsTiers respects operand (same ▸ tight) (same ▸ operandLevel)
        · exact Nat.le_of_eq ((Join.group_level _ _ _).trans same)
      next different =>
        obtain ⟨restRespects, restLevel, restLinks⟩ := ih operand (Nat.le_of_lt operandLevel) later
        refine ⟨respects, Nat.lt_succ_of_le tight, fun other mem => ?_⟩
        rcases List.mem_cons.mp mem with rfl | mem
        · exact ⟨restRespects, restLevel, Nat.lt_of_le_of_ne joinLevel (Ne.symm different)⟩
        · exact restLinks other mem

/-- A pass contracts one link of its level and moves on to the operand of a
looser one. -/
theorem foldl_link {index : Nat} (bound : index < Operator.tiers.length) {last : Grouping}
    {link : Link} (lastRespects : last.RespectsTiers) (respects : link.operand.RespectsTiers)
    (loose : index + 1 ≤ link.join.level) (done : List Tree) :
    (link.join.branches ++ [link.operand.tree]).foldl (Progress.next Operator.tiers[index])
        (.settled (last.tree :: done)) =
      if link.join.level = index + 1 then
        .settled ((link.join.group last link.operand).tree :: done)
      else .settled (link.operand.tree :: (link.join.branches.reverse ++ last.tree :: done)) := by
  have lastOperand := Grouping.isOperator_tree lastRespects
  have operand := Grouping.isOperator_tree respects
  obtain ⟨join, right⟩ := link
  cases join with
  | juxtaposed =>
      -- Juxtaposition has the tightest level, so this is the first pass.
      have first : Join.juxtaposed.level = index + 1 := Nat.le_antisymm (by simp [Join.level]) loose
      simp [Join.branches, Join.group, Grouping.tree, Progress.next_operand _ operand, lastOperand,
        first]
  | operator text pos =>
      have inside := Operator.inTier_getElem_iff text index bound
      by_cases same : Operator.tierNumber text = index + 1
      · simp [Join.branches, Join.group, Join.level, Grouping.tree, inside, same]
      · simp [Join.branches, Join.level, inside, same, Progress.next_operand _ operand, isOperator]

/-- A pass over the links of a chain contracts the joins of its level. -/
theorem foldl_links {index : Nat} (bound : index < Operator.tiers.length) {last : Grouping}
    {links : List Link} (respects : last.RespectsTiers)
    (isOpen : LinksOpenAt (index + 1) links) (tight : last.level ≤ index + 1)
    (done : List Tree) :
    (links.flatMap fun link => link.join.branches ++ [link.operand.tree]).foldl
        (Progress.next Operator.tiers[index]) (.settled (last.tree :: done)) =
      .settled ((contract (index + 1) last links).trees.reverse ++ done) := by
  induction links generalizing last done with
  | nil => simp [contract, trees]
  | cons link links ih =>
      obtain ⟨operand, operandLevel, joinLevel⟩ := isOpen link (by simp)
      have later : LinksOpenAt (index + 1) links := fun other mem => isOpen other (by simp [mem])
      rw [List.flatMap_cons, List.foldl_append, foldl_link bound respects operand joinLevel,
        contract]
      split
      next same =>
        have joined := Join.group_respectsTiers respects operand (same ▸ tight)
          (same ▸ operandLevel)
        exact ih joined later (Nat.le_of_eq ((Join.group_level _ _ _).trans same)) done
      next different =>
        rw [ih operand later (Nat.le_of_lt operandLevel)]
        simp [trees]

/-- The pass of a tier contracts the joins of its level. -/
theorem pass_trees {index : Nat} (bound : index < Operator.tiers.length) (atEnd : Bool)
    {chain : Chain} (isOpen : IsOpenAt (index + 1) chain) :
    pass Operator.tiers[index] atEnd [] chain.trees =
      .ok (contract (index + 1) chain.first chain.links).trees := by
  have run := foldl_links bound isOpen.respects isOpen.links (Nat.le_of_lt isOpen.tighter) []
  rw [pass_eq_finish_foldl, trees, List.foldl_cons, Progress.next_first, run]
  simp [Progress.finish]

/-- The passes from a tier on leave one operand of a chain that waits for them,
provided that every operator in it is known. -/
theorem passes_trees (atEnd : Bool) {index : Nat} (bound : index ≤ Operator.tiers.length)
    {chain : Chain} (isOpen : IsOpenAt (index + 1) chain)
    (known : ∀ text pos, operator text pos ∈ chain.branches → Operator.isKnown text) :
    ∃ grouping : Grouping, passes atEnd (Operator.tiers.drop index) chain.trees =
        .ok [grouping.tree] ∧ grouping.branches = chain.branches ∧ grouping.RespectsTiers := by
  induction remaining : Operator.tiers.length - index generalizing index chain with
  | zero =>
      obtain rfl : index = Operator.tiers.length := by omega
      obtain ⟨first, links⟩ := chain
      cases links with
      | nil => exact ⟨first, by simp [passes, trees], by simp [branches], isOpen.respects⟩
      | cons link links =>
          -- A join that is left over would belong to no tier.
          obtain ⟨_, _, loose⟩ := isOpen.links link (by simp)
          cases same : link.join with
          | juxtaposed =>
              rw [same] at loose
              exact absurd loose (by decide)
          | operator text pos =>
              rw [same] at loose
              have tier : Operator.tierNumber text ≤ Operator.tiers.length :=
                Operator.tierNumber_le_of_isKnown
                  (known text pos (by simp [branches, same, Join.branches]))
              exact absurd (Nat.le_trans loose tier) (Nat.not_succ_le_self _)
  | succ count ih =>
      have inside : index < Operator.tiers.length := by omega
      have next := contract_isOpenAt isOpen.respects (Nat.le_of_lt isOpen.tighter) isOpen.links
      have same := contract_branches (index + 1) chain.first chain.links
      obtain ⟨grouping, run, branches, respects⟩ :=
        ih (by omega) next (by simpa only [same] using known) (by omega)
      refine ⟨grouping, ?_, branches.trans same, respects⟩
      rw [List.drop_eq_getElem_cons inside, passes, pass_trees inside atEnd isOpen]
      exact run

/-- A chain with one more branch and a join in front. -/
def prepend (branch : Tree) (join : Join) (chain : Chain) : Chain :=
  ⟨.branch branch, ⟨join, chain.first⟩ :: chain.links⟩

theorem prepend_isOpenAt {branch : Tree} (operand : branch.isOperator = false) {join : Join}
    (loose : 1 ≤ join.level) {chain : Chain} (isOpen : IsOpenAt 1 chain) :
    IsOpenAt 1 (prepend branch join chain) := by
  refine ⟨operand, Nat.one_pos, fun link mem => ?_⟩
  rcases List.mem_cons.mp mem with rfl | mem
  · exact ⟨isOpen.respects, isOpen.tighter, loose⟩
  · exact isOpen.links link mem

theorem prepend_trees (branch : Tree) (join : Join) (chain : Chain) :
    (prepend branch join chain).trees = branch :: (join.branches ++ chain.trees) := by
  simp [prepend, trees, Grouping.tree]

theorem prepend_branches (branch : Tree) (join : Join) (chain : Chain) :
    (prepend branch join chain).branches = branch :: (join.branches ++ chain.branches) := by
  simp [prepend, branches, Grouping.branches]

/-- A sequence in which operators stand between operands is a chain of single
branches. -/
theorem exists_chain (first : Tree) (rest : List Tree) (operand : first.isOperator = false)
    (ends : ∃ last, (first :: rest).getLast? = some last ∧ last.isOperator = false)
    (separated : (first :: rest).IsChain fun left right => ¬ (left.isOperator ∧ right.isOperator)) :
    ∃ chain : Chain, IsOpenAt 1 chain ∧ chain.trees = first :: rest ∧
      chain.branches = first :: rest := by
  -- An operator is taken together with the operand after it.
  induction rest using List.twoStepInduction generalizing first with
  | nil => exact ⟨⟨.branch first, []⟩, ⟨operand, Nat.one_pos, by simp [LinksOpenAt]⟩, rfl, rfl⟩
  | singleton branch =>
      obtain ⟨last, same, lastOperand⟩ := ends
      obtain rfl : branch = last := by simpa using same
      refine ⟨prepend first .juxtaposed ⟨.branch branch, []⟩, ?_, rfl, rfl⟩
      exact prepend_isOpenAt operand (Join.level_pos _)
        ⟨lastOperand, Nat.one_pos, by simp [LinksOpenAt]⟩
  | cons_cons branch right rest ihRest ihRight =>
      obtain ⟨firstSeparated, branchSeparated⟩ := List.isChain_cons_cons.mp separated
      rw [List.getLast?_cons_cons] at ends
      cases kind : branch.isOperator with
      | false =>
          obtain ⟨chain, isOpen, trees, branches⟩ := ihRight right branch kind ends branchSeparated
          refine ⟨prepend first .juxtaposed chain, ?_, ?_, ?_⟩
          · exact prepend_isOpenAt operand (Join.level_pos _) isOpen
          · rw [prepend_trees, trees, Join.branches, List.nil_append]
          · rw [prepend_branches, branches, Join.branches, List.nil_append]
      | true =>
          obtain ⟨text, pos, rfl⟩ := exists_of_isOperator kind
          obtain ⟨rightOperand, rightSeparated⟩ := List.isChain_cons_cons.mp branchSeparated
          rw [List.getLast?_cons_cons] at ends
          obtain ⟨chain, isOpen, trees, branches⟩ :=
            ihRest right (by simpa [kind] using rightOperand) ends rightSeparated
          refine ⟨prepend first (.operator text pos) chain, ?_, ?_, ?_⟩
          · exact prepend_isOpenAt operand (Join.level_pos _) isOpen
          · rw [prepend_trees, trees, Join.branches, List.singleton_append]
          · rw [prepend_branches, branches, Join.branches, List.singleton_append]

end Chain

/-- Branches in which known operators stand between operands are resolved to the
one grouping of them that respects the tiers. -/
theorem resolve_eq_wrap_grouping (atEnd : Bool) (branches : List Tree)
    (sequence : IsOperandSequence branches)
    (known : ∀ text pos, operator text pos ∈ branches → Operator.isKnown text) :
    ∃ grouping : Grouping, resolve atEnd branches = .ok (wrap grouping.tree) ∧
      grouping.branches = branches ∧ grouping.RespectsTiers ∧
      ∀ other : Grouping, other.branches = branches → other.RespectsTiers → other = grouping := by
  obtain ⟨first, start, operand⟩ := sequence.starts
  obtain ⟨rest, rfl⟩ : ∃ rest, branches = first :: rest := List.head?_eq_some_iff.mp start
  obtain ⟨chain, isOpen, trees, same⟩ :=
    Chain.exists_chain first rest operand sequence.ends sequence.separated
  obtain ⟨grouping, run, sequence, respects⟩ :=
    Chain.passes_trees atEnd (Nat.zero_le _) isOpen (same ▸ known)
  rw [List.drop_zero, trees] at run
  refine ⟨grouping, by rw [resolve, run], sequence.trans same, respects, ?_⟩
  intro other otherBranches otherRespects
  exact Grouping.eq_of_branches_eq otherRespects respects
    (otherBranches.trans (sequence.trans same).symm)

/-- The branches of `f x . k + 2 * 3`. -/
def mixedBranches : List Tree :=
  [word (utf8 "f"), word (utf8 "x"), operator (utf8 ".") 4, word (utf8 "k"),
    operator (utf8 "+") 8, number ⟨2, 1⟩, operator (utf8 "*") 12, number ⟨3, 1⟩]

/-- The grouping `((f x) . k) + (2 * 3)`. -/
def mixedGrouping : Grouping :=
  .combination (utf8 "+") 8
    (.combination (utf8 ".") 4
      (.application (.branch (word (utf8 "f"))) (.branch (word (utf8 "x"))))
      (.branch (word (utf8 "k"))))
    (.combination (utf8 "*") 12 (.branch (number ⟨2, 1⟩)) (.branch (number ⟨3, 1⟩)))

theorem resolve_mixedBranches :
    resolve true mixedBranches = .ok (wrap mixedGrouping.tree) ∧
      ∀ other : Grouping, other.branches = mixedBranches → other.RespectsTiers →
        other = mixedGrouping := by
  have sequence : IsOperandSequence mixedBranches :=
    { starts := ⟨_, rfl, rfl⟩
      ends := ⟨_, rfl, rfl⟩
      separated := by simp [mixedBranches, isOperator] }
  have known : ∀ text pos, operator text pos ∈ mixedBranches → Operator.isKnown text := by
    intro text pos mem
    obtain ⟨rfl, -⟩ | ⟨rfl, -⟩ | ⟨rfl, -⟩ : (text = utf8 "." ∧ pos = 4) ∨
        (text = utf8 "+" ∧ pos = 8) ∨ (text = utf8 "*" ∧ pos = 12) := by
      simpa [mixedBranches] using mem
    all_goals decide
  have respects : mixedGrouping.RespectsTiers := by
    refine ⟨⟨⟨rfl, rfl, ?_, ?_⟩, rfl, ?_, ?_⟩, ⟨rfl, rfl, ?_, ?_⟩, ?_, ?_⟩
    all_goals decide
  obtain ⟨grouping, resolved, -, -, unique⟩ :=
    resolve_eq_wrap_grouping true mixedBranches sequence known
  obtain rfl : mixedGrouping = grouping := unique mixedGrouping rfl respects
  exact ⟨resolved, unique⟩

end Juxta.Tree
