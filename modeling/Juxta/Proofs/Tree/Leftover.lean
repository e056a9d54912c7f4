/-
# What the passes leave over

An expression is rejected when several branches are left after the last pass. An
operator that no tier knows is never joined on its own account, so it is left over
as well, unless a known operator beside it takes it for an operand. This happens
to be the only way in which no operator is left to blame: in the last pass an
operator of the loosest tier may take an unknown operator for its left operand,
and what stood before that is left beside the combination.
-/

import Juxta.Proofs.Tree.Extension
import Juxta.Proofs.Tree.Traversal
import Mathlib.Data.List.Chain

namespace Juxta

namespace Operator

/-- The last of the tiers. -/
def loosestTier : List Operator := [bitAnd, bitOr, bitXor]

theorem tiers_eq_concat : tiers = tiers.dropLast ++ [loosestTier] := rfl

/-- An unknown text belongs to no tier. -/
theorem inTier_of_not_isKnown {text : Bytes} (unknown : isKnown text = false)
    {tier : List Operator} (mem : tier ∈ tiers) : inTier tier text = false := by
  rw [isKnown, List.any_eq_false] at unknown
  simpa using unknown tier mem

end Operator

namespace Tree

/-! ### Unknown operators with other neighbours -/

/-- Whether a branch is an operator that some tier knows. -/
def isKnownOperator : Tree → Bool
  | operator text _ => Operator.isKnown text
  | _ => false

theorem isKnownOperator_of_operand {tree : Tree} (operand : tree.isOperator = false) :
    tree.isKnownOperator = false := by
  cases tree with
  | operator text pos => cases operand
  | _ => rfl

/-- An operator stands among other branches, and the branches beside it are no known
operators. -/
def Isolated (text : Bytes) (pos : Int) (branches : List Tree) : Prop :=
  ∃ front rest, branches = front ++ operator text pos :: rest ∧
    (∀ last ∈ front.getLast?, last.isKnownOperator = false) ∧
    (∀ next ∈ rest.head?, next.isKnownOperator = false) ∧ (front ≠ [] ∨ rest ≠ [])

namespace Progress

variable {tier : List Operator}

/-- A branch that is no known operator leaves a pass settled, on top of the others or
joined with the topmost of them. -/
theorem next_settled_of_not_known (mem : tier ∈ Operator.tiers) {branch : Tree}
    (unknown : branch.isKnownOperator = false) (progress : Progress) :
    ∃ top done, progress.next tier branch = settled (top :: done) ∧
      top.isKnownOperator = false := by
  cases kind : branch.isOperator with
  | false =>
      obtain ⟨top, done, same, operand⟩ := next_operand_settled tier kind progress
      exact ⟨top, done, same, isKnownOperator_of_operand operand⟩
  | true =>
      obtain ⟨text, pos, rfl⟩ := exists_of_isOperator kind
      have outside := Operator.inTier_of_not_isKnown unknown mem
      cases progress with
      | waiting symbol offset left done => exact ⟨_, done, rfl, rfl⟩
      | settled done =>
          cases done with
          | nil => exact ⟨_, [], rfl, unknown⟩
          | cons last done =>
              refine ⟨operator text pos, last :: done, ?_, unknown⟩
              rw [next_operator, outside]
              rfl

/-- Branches that do not end with a known operator leave a pass settled. -/
theorem foldl_settled (mem : tier ∈ Operator.tiers) {front : List Tree}
    (unknown : ∀ last ∈ front.getLast?, last.isKnownOperator = false) :
    ∃ done, front.foldl (next tier) (settled []) = settled done ∧
      (∀ top ∈ done.head?, top.isKnownOperator = false) ∧ (front ≠ [] → done ≠ []) := by
  rcases List.eq_nil_or_concat front with rfl | ⟨front, last, rfl⟩
  · exact ⟨[], rfl, by simp, fun nonempty => absurd rfl nonempty⟩
  · rw [List.concat_eq_append] at unknown ⊢
    have lastUnknown := unknown last List.getLast?_concat
    obtain ⟨top, done, same, topUnknown⟩ :=
      next_settled_of_not_known mem lastUnknown (front.foldl (next tier) (settled []))
    refine ⟨top :: done, ?_, by simpa using topUnknown, fun _ => List.cons_ne_nil _ _⟩
    rw [List.foldl_append]
    exact same

/-- An unknown operator is put on top of the others. -/
theorem next_unknown (mem : tier ∈ Operator.tiers) {text : Bytes}
    (unknown : Operator.isKnown text = false) (pos : Int) (done : List Tree) :
    (settled done).next tier (operator text pos) = settled (operator text pos :: done) := by
  cases done with
  | nil => rfl
  | cons last done =>
      rw [next_operator, Operator.inTier_of_not_isKnown unknown mem]
      rfl

/-- Nothing but a known operator of the tier takes an operator from the top. -/
theorem next_above_operator (mem : tier ∈ Operator.tiers) {branch : Tree}
    (unknown : branch.isKnownOperator = false) (text : Bytes) (pos : Int) (done : List Tree) :
    (settled (operator text pos :: done)).next tier branch =
      settled (branch :: operator text pos :: done) := by
  cases kind : branch.isOperator with
  | false =>
      rw [next_operand tier kind]
      rfl
  | true =>
      obtain ⟨symbol, offset, rfl⟩ := exists_of_isOperator kind
      exact next_unknown mem unknown offset _

end Progress

/-- An unknown operator stays among other branches, and no known operator comes beside
it. -/
theorem isolated_pass {tier : List Operator} (mem : tier ∈ Operator.tiers) {atEnd : Bool}
    {text : Bytes} (unknown : Operator.isKnown text = false) {pos : Int}
    {branches joined : List Tree} (isolated : Isolated text pos branches)
    (passed : pass tier atEnd [] branches = .ok joined) : Isolated text pos joined := by
  obtain ⟨front, rest, rfl, before, after, others⟩ := isolated
  obtain ⟨done, settled, top, nonempty⟩ := Progress.foldl_settled mem before
  rw [pass_eq_finish_foldl, List.foldl_append, settled, List.foldl_cons,
    Progress.next_unknown mem unknown] at passed
  have beforeJoined : ∀ last ∈ done.reverse.getLast?, last.isKnownOperator = false := by
    rwa [List.getLast?_reverse]
  cases rest with
  | nil =>
      cases passed
      refine ⟨done.reverse, [], by simp, beforeJoined, by simp, .inl ?_⟩
      simpa using nonempty (others.resolve_right fun other => other rfl)
  | cons next rest =>
      have nextUnknown := after next rfl
      rw [List.foldl_cons, Progress.next_above_operator mem nextUnknown] at passed
      -- The branch above the operator stays or grows to an operand.
      have stands : Progress.StandsOn (operator text pos :: done) next
          (.settled (next :: operator text pos :: done)) := ⟨[], next, rfl, .inl rfl⟩
      have run : (rest.foldl (Progress.next tier) _).StandsOn _ next :=
        Progress.standsOn_foldl rest stands
      obtain ⟨above, grown, same, grew⟩ := run
      rw [Progress.finish_eq_ok passed] at same
      refine ⟨done.reverse, grown :: above.reverse, ?_, beforeJoined, ?_, .inr (by simp)⟩
      · rw [← List.reverse_reverse joined, same]
        simp
      · intro other first
        obtain rfl : grown = other := by simpa using first
        rcases grew with rfl | operand
        · exact nextUnknown
        · exact isKnownOperator_of_operand operand

/-- An unknown operator among other branches is rejected, unless a known operator
stands beside it. -/
theorem resolve_of_isolated {text : Bytes} (unknown : Operator.isKnown text = false) {pos : Int}
    {branches : List Tree} (isolated : Isolated text pos branches) (atEnd : Bool) :
    ∃ error, resolve atEnd branches = .error error := by
  cases passed : passes atEnd Operator.tiers branches with
  | error error => exact ⟨error, by rw [resolve, passed]⟩
  | ok joined =>
      obtain ⟨front, rest, rfl, -, -, others⟩ :=
        kept_by_passes (fun tier mem _ _ => isolated_pass mem unknown) isolated passed
      refine ⟨_, resolve_eq_leftover passed ?_⟩
      rw [List.length_append, List.length_cons]
      rcases others with others | others
      · have := List.length_pos_iff.mpr others
        omega
      · have := List.length_pos_iff.mpr others
        omega

/-- Once a branch has followed an unknown operator, nothing mends the expression. -/
theorem hopeless_of_unknown {text : Bytes} (unknown : Operator.isKnown text = false) (pos : Int)
    {front : List Tree} (before : ∀ last ∈ front.getLast?, last.isKnownOperator = false)
    {next : Tree} (after : next.isKnownOperator = false) :
    Hopeless (front ++ [operator text pos, next]) := by
  intro atEnd rest
  have isolated : Isolated text pos (front ++ [operator text pos, next] ++ rest) :=
    ⟨front, next :: rest, by simp, before, by simpa using after, .inr (List.cons_ne_nil _ _)⟩
  exact resolve_of_isolated unknown isolated atEnd

/-! ### No operator left to blame -/

/-- No two neighbours are both operands. -/
def Apart (stack : List Tree) : Prop :=
  stack.IsChain fun upper lower => upper.isOperator ∨ lower.isOperator

theorem Apart.cons_operator {stack : List Tree} (apart : Apart stack) {top : Tree}
    (isOperator : top.isOperator) : Apart (top :: stack) := by
  cases stack with
  | nil => exact List.isChain_singleton _
  | cons upper stack => exact List.isChain_cons_cons.mpr ⟨.inl isOperator, apart⟩

theorem Apart.cons_above_operator {upper : Tree} {stack : List Tree}
    (apart : Apart (upper :: stack)) (isOperator : upper.isOperator) (top : Tree) :
    Apart (top :: upper :: stack) :=
  List.isChain_cons_cons.mpr ⟨.inr isOperator, apart⟩

/-- An operand on top of the others may be exchanged for any branch. -/
theorem Apart.exchange {operand : Tree} {stack : List Tree} (apart : Apart (operand :: stack))
    (kind : operand.isOperator = false) (top : Tree) : Apart (top :: stack) := by
  cases stack with
  | nil => exact List.isChain_singleton _
  | cons upper stack =>
      obtain ⟨either, apart⟩ := List.isChain_cons_cons.mp apart
      rw [kind] at either
      exact Apart.cons_above_operator apart (by simpa using either) top

/-- No operator of a tier directly follows another operator that the tier does not
know. -/
def PairsFree (tier : List Operator) (branches : List Tree) : Prop :=
  ∀ text pos text' pos', Operator.inTier tier text = false → Operator.inTier tier text' →
    ¬ [operator text pos, operator text' pos'] <:+: branches

theorem PairsFree.of_suffix {tier : List Operator} {branches later : List Tree}
    (free : PairsFree tier branches) (suffix : later <:+ branches) : PairsFree tier later :=
  fun text pos text' pos' outside inside pair =>
    free text pos text' pos' outside inside (pair.trans suffix.isInfix)

theorem PairsFree.cons_operand {tier : List Operator} {branches : List Tree}
    (free : PairsFree tier branches) {operand : Tree} (kind : operand.isOperator = false) :
    PairsFree tier (operand :: branches) := by
  intro text pos text' pos' outside inside pair
  rcases List.infix_cons_iff.mp pair with first | later
  · obtain ⟨rfl, -⟩ := List.cons_prefix_cons.mp first
    cases kind
  · exact free text pos text' pos' outside inside later

namespace Progress

variable {tier : List Operator}

/-- The branches of a pass are apart, also when the right operand arrives. -/
def IsApart : Progress → Prop
  | settled done => Apart done
  | waiting _ _ _ done => ∀ operand, Apart (operand :: done)

/-- The topmost branch of a pass, if it is not the only one. -/
def lead : Progress → List Tree
  | settled (top :: _ :: _) => [top]
  | _ => []

/-- A step leads with the branch itself, with an operand or not at all. -/
theorem lead_next (tier : List Operator) (progress : Progress) (branch : Tree) :
    (progress.next tier branch).lead = [] ∨ (progress.next tier branch).lead = [branch] ∨
      ∃ operand : Tree, operand.isOperator = false ∧
        (progress.next tier branch).lead = [operand] := by
  have joined (top : Tree) (kind : top.isOperator = false) (done : List Tree) :
      (settled (top :: done)).lead = [] ∨ ∃ operand : Tree, operand.isOperator = false ∧
        (settled (top :: done)).lead = [operand] := by
    cases done with
    | nil => exact .inl rfl
    | cons last done => exact .inr ⟨top, kind, rfl⟩
  cases progress with
  | waiting text pos left done =>
      rcases joined (combination text left branch) rfl done with none | some
      · exact .inl none
      · exact .inr (.inr some)
  | settled done =>
      cases done with
      | nil => exact .inl rfl
      | cons last done =>
          cases kind : branch.isOperator with
          | true =>
              obtain ⟨text, pos, rfl⟩ := exists_of_isOperator kind
              rw [next_operator]
              split
              · exact .inl rfl
              · exact .inr (.inl rfl)
          | false =>
              rw [next_operand tier kind]
              split
              · exact .inr (.inl rfl)
              · rcases joined (application last branch) rfl done with none | some
                · exact .inl none
                · exact .inr (.inr some)

/-- The branches stay apart, unless an operator of the tier takes another operator from
above the first branch. -/
theorem isApart_next {allows : Bytes → Prop} {progress : Progress}
    (keeps : KeepsAllowed (Outside tier allows) progress) (apart : progress.IsApart)
    {branch : Tree} (free : PairsFree tier (progress.lead ++ [branch])) :
    (progress.next tier branch).IsApart := by
  cases progress with
  | waiting text pos left done => exact apart _
  | settled done =>
      cases done with
      | nil => exact List.isChain_singleton _
      | cons last done =>
          cases kind : branch.isOperator with
          | false =>
              rw [next_operand tier kind]
              split
              next isOperator => exact Apart.cons_above_operator apart isOperator _
              next operand => exact Apart.exchange apart (by simpa using operand) _
          | true =>
              obtain ⟨text, pos, rfl⟩ := exists_of_isOperator kind
              rw [next_operator]
              split
              next inside =>
                intro operand
                cases lastKind : last.isOperator with
                | false => exact Apart.exchange apart lastKind operand
                | true =>
                    obtain ⟨text', pos', rfl⟩ := exists_of_isOperator lastKind
                    cases done with
                    | nil => exact List.isChain_singleton _
                    | cons lower done =>
                        have outside := (keeps.allowed text' pos' (by simp [stack])).2
                        have pair := free text' pos' text pos (by simpa using outside) inside
                        exact absurd List.infix_rfl pair
              next => exact Apart.cons_operator apart kind

theorem isApart_foldl {allows : Bytes → Prop} {branches : List Tree}
    (fit : OperatorsAllowed allows branches) {progress : Progress}
    (keeps : KeepsAllowed (Outside tier allows) progress) (apart : progress.IsApart)
    (free : PairsFree tier (progress.lead ++ branches)) :
    (branches.foldl (next tier) progress).IsApart := by
  induction branches generalizing progress with
  | nil => exact apart
  | cons branch branches ih =>
      have later : PairsFree tier (branch :: branches) := free.of_suffix (List.suffix_append _ _)
      have here : PairsFree tier (progress.lead ++ [branch]) := fun text pos text' pos' outside
          inside pair => free text pos text' pos' outside inside
        (pair.trans ⟨[], branches, by simp⟩)
      have fits : OperatorsAllowed allows [branch] := fun text pos mem =>
        fit text pos (by simp [List.mem_singleton.mp mem])
      apply ih (fun text pos mem => fit text pos (by simp [mem])) (keepsAllowed_next keeps fits)
        (isApart_next keeps apart here)
      have rest : PairsFree tier branches := later.of_suffix (List.suffix_cons _ _)
      rcases lead_next tier progress branch with none | same | ⟨operand, kind, some⟩
      · rwa [none]
      · rwa [same]
      · rw [some]
        exact rest.cons_operand kind

end Progress

/-- If a pass leaves several operands and no operator, then an operator of the tier has
taken another one for its left operand. -/
theorem exists_pair_of_pass {tier : List Operator} {atEnd : Bool} {branches joined : List Tree}
    (passed : pass tier atEnd [] branches = .ok joined) (several : 2 ≤ joined.length)
    (operands : ∀ tree ∈ joined, tree.isOperator = false) :
    ∃ text pos text' pos', Operator.inTier tier text = false ∧ Operator.inTier tier text' ∧
      [operator text pos, operator text' pos'] <:+: branches.tail := by
  by_contra none
  have free : PairsFree tier branches.tail := fun text pos text' pos' outside inside pair =>
    none ⟨text, pos, text', pos', outside, inside, pair⟩
  rw [pass_eq_finish_foldl] at passed
  cases branches with
  | nil =>
      cases passed
      simp at several
  | cons branch branches =>
      rw [List.foldl_cons, Progress.next_first] at passed
      have allowed : OperatorsAllowed (fun _ => True) branches := fun _ _ _ => trivial
      have keeps : Progress.KeepsAllowed (Outside tier fun _ => True) (.settled [branch]) :=
        ⟨by simp [Progress.stack], by simp [Progress.stack, OperatorsAllowed]⟩
      have apart := Progress.isApart_foldl allowed keeps (List.isChain_singleton _) free
      cases progress : branches.foldl (Progress.next tier) (.settled [branch]) with
      | waiting text pos left done =>
          rw [progress] at passed
          cases passed
      | settled done =>
          rw [progress] at passed apart
          cases passed
          rcases done with _ | ⟨upper, _ | ⟨lower, done⟩⟩
          · simp at several
          · simp at several
          · obtain ⟨either, -⟩ := List.isChain_cons_cons.mp apart
            rw [operands upper (by simp), operands lower (by simp)] at either
            simp at either

/-- The pass of a last tier follows the passes of the others. -/
theorem exists_pass_of_passes_concat {tiers : List (List Operator)} {tier : List Operator}
    {atEnd : Bool} {branches joined : List Tree}
    (passed : passes atEnd (tiers ++ [tier]) branches = .ok joined) :
    ∃ middle, passes atEnd tiers branches = .ok middle ∧
      pass tier atEnd [] middle = .ok joined := by
  induction tiers generalizing branches with
  | nil =>
      rw [List.nil_append, passes] at passed
      split at passed
      next middle once =>
        cases passed
        exact ⟨branches, rfl, once⟩
      next => cases passed
  | cons first tiers ih =>
      rw [List.cons_append, passes] at passed
      rw [passes]
      split at passed
      next middle once => exact ih passed
      next => cases passed

/-- After the passes of some tiers no operator of theirs stands behind the first branch. -/
theorem operatorsAllowed_tail_passes {tiers : List (List Operator)} {allows : Bytes → Prop}
    {atEnd : Bool} {branches joined : List Tree} (allowed : OperatorsAllowed allows branches.tail)
    (passed : passes atEnd tiers branches = .ok joined) :
    OperatorsAllowed (fun text => allows text ∧ ∀ tier ∈ tiers, ¬ Operator.inTier tier text)
      joined.tail := by
  induction tiers generalizing branches allows with
  | nil =>
      cases passed
      exact fun text pos mem => ⟨allowed text pos mem, by simp⟩
  | cons tier tiers ih =>
      rw [passes] at passed
      split at passed
      next middle once =>
        intro text pos mem
        obtain ⟨⟨allows, outside⟩, others⟩ :=
          ih (operatorsAllowed_tail_pass allowed once) passed text pos mem
        exact ⟨allows, List.forall_mem_cons.mpr ⟨outside, others⟩⟩
      next => cases passed

/-- Operators that are left over stand among the branches, and neighbours beside each
other. -/
theorem operators_infix_of_passes {tiers : List (List Operator)} {atEnd : Bool}
    {branches joined operators : List Tree} (passed : passes atEnd tiers branches = .ok joined)
    (allOperators : ∀ tree ∈ operators, tree.isOperator) (inside : operators <:+: joined) :
    operators <:+: branches := by
  obtain ⟨groupings, rfl, rfl⟩ := exists_groupings_of_passes passed
  obtain ⟨front, rest, same⟩ := inside
  obtain ⟨first, last, rfl, firstTrees, rfl⟩ := List.map_eq_append_iff.mp same.symm
  obtain ⟨first, middle, rfl, rfl, rfl⟩ := List.map_eq_append_iff.mp firstTrees
  have single : ∀ grouping ∈ middle, grouping.branches = [grouping.tree] := by
    intro grouping mem
    obtain ⟨text, pos, same⟩ :=
      exists_of_isOperator (allOperators grouping.tree (List.mem_map_of_mem mem))
    rw [same]
    exact Grouping.branches_of_tree_eq_operator same
  have trees : middle.flatMap Grouping.branches = middle.map Grouping.tree := by
    rw [List.map_eq_flatMap, List.flatMap_def, List.flatMap_def, List.map_congr_left single]
  refine ⟨first.flatMap Grouping.branches, last.flatMap Grouping.branches, ?_⟩
  rw [← trees, List.flatMap_append, List.flatMap_append]

theorem operator_mem_of_passes {tiers : List (List Operator)} {atEnd : Bool}
    {branches joined : List Tree} (passed : passes atEnd tiers branches = .ok joined)
    {text : Bytes} {pos : Int} (mem : operator text pos ∈ joined) :
    operator text pos ∈ branches := by
  obtain ⟨front, rest, rfl⟩ := List.append_of_mem mem
  have single : [operator text pos] <:+: front ++ operator text pos :: rest :=
    ⟨front, rest, by simp⟩
  have inside := operators_infix_of_passes passed (by simp [isOperator]) single
  exact inside.subset (by simp)

/-- What an error of a flat expression blames: an operator among the branches, or
nothing. Then an unknown operator stands directly before one of the loosest tier. -/
inductive Blames (branches : List Tree) : ParseError → Prop
  | operator {text : Bytes} {pos : Int} {cause : ParseError.Cause}
      (mem : operator text pos ∈ branches) (resolved : cause ≠ .unresolved) :
      Blames branches ⟨pos, cause⟩
  | nothing {text text' : Bytes} {pos pos' : Int} (unknown : Operator.isKnown text = false)
      (loosest : Operator.inTier Operator.loosestTier text')
      (pair : [Tree.operator text pos, Tree.operator text' pos'] <:+: branches) :
      Blames branches ⟨ParseError.endPosition, .unresolved⟩

/-- A pass only waits right after the operator that it waits for. -/
theorem Progress.next_eq_waiting {tier : List Operator} {progress : Progress} {branch : Tree}
    {text : Bytes} {pos : Int} {left : Tree} {done : List Tree}
    (waits : progress.next tier branch = waiting text pos left done) :
    branch = operator text pos := by
  cases progress with
  | waiting symbol offset first below => cases waits
  | settled below =>
      cases below with
      | nil => cases waits
      | cons last below =>
          cases kind : branch.isOperator with
          | true =>
              obtain ⟨symbol, offset, rfl⟩ := exists_of_isOperator kind
              rw [next_operator] at waits
              split at waits <;> cases waits
              rfl
          | false =>
              rw [next_operand tier kind] at waits
              split at waits <;> cases waits

theorem blames_of_pass {tier : List Operator} {atEnd : Bool} {branches : List Tree}
    {error : ParseError} (failed : pass tier atEnd [] branches = .error error) :
    Blames branches error := by
  rw [pass_eq_finish_foldl] at failed
  rcases List.eq_nil_or_concat branches with rfl | ⟨front, last, rfl⟩
  · cases failed
  · rw [List.concat_eq_append, List.foldl_append] at failed
    rw [List.concat_eq_append]
    cases progress : [last].foldl (Progress.next tier)
        (front.foldl (Progress.next tier) (.settled [])) with
    | settled done =>
        rw [progress] at failed
        cases failed
    | waiting text pos left done =>
        rw [progress] at failed
        cases failed
        obtain rfl := Progress.next_eq_waiting progress
        have mem : operator text pos ∈ front ++ [operator text pos] := by simp
        exact .operator mem (by simp)

/-- What is blamed after some passes is blamed before them. -/
theorem Blames.of_passes {tiers : List (List Operator)} {atEnd : Bool}
    {branches joined : List Tree} {error : ParseError} (blames : Blames joined error)
    (passed : passes atEnd tiers branches = .ok joined) : Blames branches error := by
  cases blames with
  | operator mem resolved => exact .operator (operator_mem_of_passes passed mem) resolved
  | nothing unknown loosest pair =>
      exact .nothing unknown loosest
        (operators_infix_of_passes passed (by simp [isOperator]) pair)

theorem blames_of_passes {tiers : List (List Operator)} {atEnd : Bool} {branches : List Tree}
    {error : ParseError} (failed : passes atEnd tiers branches = .error error) :
    Blames branches error := by
  induction tiers generalizing branches with
  | nil => cases failed
  | cons tier tiers ih =>
      rw [passes] at failed
      split at failed
      next middle once =>
        have first : passes atEnd [tier] branches = .ok middle := by rw [passes, once]; rfl
        exact (ih failed).of_passes first
      next stopped =>
        cases failed
        exact blames_of_pass stopped

/-- The first operator among some branches is to blame, if there is any. -/
theorem leftover_cases (joined : List Tree) :
    (∃ text pos cause, operator text pos ∈ joined ∧ leftover joined = ⟨pos, cause⟩ ∧
        cause ≠ .unresolved) ∨
      (∀ tree ∈ joined, tree.isOperator = false) ∧
        leftover joined = ⟨ParseError.endPosition, .unresolved⟩ := by
  fun_induction leftover joined with
  | case1 => exact .inr ⟨by simp, rfl⟩
  | case2 text pos rest =>
      refine .inl ⟨text, pos, _, by simp, rfl, ?_⟩
      split <;> simp
  | case3 branch rest notOperator ih =>
      rcases ih with ⟨text, pos, cause, mem, same, resolved⟩ | ⟨operands, same⟩
      · exact .inl ⟨text, pos, cause, List.mem_cons_of_mem _ mem, same, resolved⟩
      · have operand := isOperator_eq_false_iff.mpr notOperator
        exact .inr ⟨List.forall_mem_cons.mpr ⟨operand, operands⟩, same⟩

/-- If the passes leave several operands and no operator, then an unknown operator
stands directly before one of the loosest tier. -/
theorem blames_of_operands {atEnd : Bool} {branches joined : List Tree}
    (passed : passes atEnd Operator.tiers branches = .ok joined) (several : 2 ≤ joined.length)
    (operands : ∀ tree ∈ joined, tree.isOperator = false) :
    Blames branches ⟨ParseError.endPosition, .unresolved⟩ := by
  rw [Operator.tiers_eq_concat] at passed
  obtain ⟨middle, early, last⟩ := exists_pass_of_passes_concat passed
  obtain ⟨text, pos, text', pos', outside, inside, pair⟩ :=
    exists_pair_of_pass last several operands
  -- Behind the first branch the earlier passes have left no operators of their tiers.
  have allowed : OperatorsAllowed (fun _ => True) branches.tail := fun _ _ _ => trivial
  have earlier := (operatorsAllowed_tail_passes allowed early text pos (pair.subset (by simp))).2
  have unknown : Operator.isKnown text = false := by
    rw [Operator.isKnown, Operator.tiers_eq_concat, List.any_append, Bool.or_eq_false_iff,
      List.any_eq_false]
    exact ⟨earlier, by simpa using outside⟩
  have tail : middle.tail <:+: middle := (List.tail_suffix middle).isInfix
  exact (Blames.nothing unknown inside (pair.trans tail)).of_passes early

/-- Every rejection of a flat expression blames one of its operators, or an operator of
the loosest tier has taken an unknown one. -/
theorem blames_of_resolve {atEnd : Bool} {branches : List Tree} {error : ParseError}
    (rejected : resolve atEnd branches = .error error) : Blames branches error := by
  cases passed : passes atEnd Operator.tiers branches with
  | error stopped =>
      rw [resolve, passed] at rejected
      cases rejected
      exact blames_of_passes passed
  | ok joined =>
      have several : 2 ≤ joined.length := by
        rcases joined with _ | ⟨branch, _ | ⟨next, rest⟩⟩
        · rw [resolve, passed] at rejected
          cases rejected
        · rw [resolve, passed] at rejected
          cases rejected
        · simp
      rw [resolve_eq_leftover passed several] at rejected
      cases rejected
      rcases leftover_cases joined with ⟨text, pos, cause, mem, same, resolved⟩ | ⟨operands, same⟩
      · rw [same]
        exact (Blames.operator mem resolved).of_passes passed
      · rw [same]
        exact blames_of_operands passed several operands

end Tree

end Juxta
