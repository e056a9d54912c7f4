/-
# Flat expressions that no continuation mends

A flat expression can be rejected because it stops too early, and then more
branches may mend it. Every other rejection is final: the branches begin with an
operator that has an operand behind it, and no later branch gives that operator
a left side. The proof runs the passes over an expression and over one that
continues it side by side. Before each pass the longer sequence has the branches
of the shorter one, except that the last of them may have grown to an operand.
-/

import Juxta.Proofs.Tree.Pass

namespace Juxta.Tree

/-- Every operator among some branches has a text that is allowed. -/
def OperatorsAllowed (allows : Bytes → Prop) (branches : List Tree) : Prop :=
  ∀ text pos, operator text pos ∈ branches → allows text

/-- The texts that are allowed behind the first branch once a tier has been passed. -/
def Outside (tier : List Operator) (allows : Bytes → Prop) (text : Bytes) : Prop :=
  allows text ∧ ¬ Operator.inTier tier text

/-- Every operator among some branches is known. -/
def OperatorsKnown (branches : List Tree) : Prop :=
  ∀ text pos, operator text pos ∈ branches → Operator.isKnown text

/-- One sequence continues another: it has the same branches, of which only the
last may have grown to an operand, and then any others. -/
def Continues (longer shorter : List Tree) : Prop :=
  ∃ front last grown rest, shorter = front ++ [last] ∧ longer = front ++ grown :: rest ∧
    (grown = last ∨ grown.isOperator = false)

/-- A sequence ends with an operator that has a left operand and no right one. -/
def EndsWithOperator (text : Bytes) (branches : List Tree) : Prop :=
  ∃ front operand pos, branches = front ++ [operand, operator text pos] ∧
    operand.isOperator = false

/-- Every operator among some branches belongs to one of some tiers. -/
def OperatorsIn (tiers : List (List Operator)) (branches : List Tree) : Prop :=
  ∀ text pos, operator text pos ∈ branches → ∃ tier ∈ tiers, Operator.inTier tier text

namespace Progress

/-- The branches of a pass that were passed or wait, the last one first. -/
def stack : Progress → List Tree
  | settled done => done
  | waiting _ _ left done => left :: done

/-- Above some branches stands one that was there or has grown to an operand. -/
def StandsOn (done : List Tree) (top : Tree) (progress : Progress) : Prop :=
  ∃ above grown, progress.stack = above ++ grown :: done ∧
    (grown = top ∨ grown.isOperator = false)

/-- Only the topmost branch of a pass ever changes, and it grows to an operand. -/
theorem standsOn_next {tier : List Operator} {done : List Tree} {top : Tree}
    {progress : Progress} (stands : StandsOn done top progress) (branch : Tree) :
    StandsOn done top (progress.next tier branch) := by
  obtain ⟨above, grown, same, kept⟩ := stands
  cases progress with
  | waiting text pos left rest =>
      cases above with
      | nil =>
          injection same with _ same
          exact ⟨[], .combination text left branch, by simp [stack, same], .inr rfl⟩
      | cons head above =>
          injection same with _ same
          exact ⟨.combination text left branch :: above, grown, by simp [stack, same], kept⟩
  | settled rest =>
      cases rest with
      | nil => simp [stack] at same
      | cons last rest =>
          have pushed : StandsOn done top (settled (branch :: last :: rest)) := by
            refine ⟨branch :: above, grown, ?_, kept⟩
            simpa [stack] using same
          cases kind : branch.isOperator with
          | true =>
              obtain ⟨text, pos, rfl⟩ := exists_of_isOperator kind
              rw [next_operator]
              split
              · exact ⟨above, grown, same, kept⟩
              · exact pushed
          | false =>
              rw [next_operand tier kind]
              split
              · exact pushed
              · cases above with
                | nil =>
                    injection same with _ same
                    exact ⟨[], .application last branch, by simp [stack, same], .inr rfl⟩
                | cons head above =>
                    injection same with _ same
                    exact ⟨.application last branch :: above, grown, by simp [stack, same], kept⟩

theorem standsOn_foldl {tier : List Operator} {done : List Tree} {top : Tree}
    (branches : List Tree) {progress : Progress} (stands : StandsOn done top progress) :
    StandsOn done top (branches.foldl (next tier) progress) := by
  induction branches generalizing progress with
  | nil => exact stands
  | cons branch branches ih => exact ih (standsOn_next stands branch)

/-- A finished pass gives its branches in order. -/
theorem finish_eq_ok {atEnd : Bool} {progress : Progress} {joined : List Tree}
    (finished : progress.finish atEnd = .ok joined) : progress.stack = joined.reverse := by
  cases progress with
  | settled done =>
      cases finished
      simp [stack]
  | waiting text pos left done => cases finished

/-- After an operand a pass is settled on an operand. -/
theorem next_operand_settled (tier : List Operator) {branch : Tree}
    (operand : branch.isOperator = false) (progress : Progress) :
    ∃ top done, progress.next tier branch = settled (top :: done) ∧ top.isOperator = false := by
  cases progress with
  | waiting text pos left done => exact ⟨_, done, rfl, rfl⟩
  | settled done =>
      cases done with
      | nil => exact ⟨branch, [], rfl, operand⟩
      | cons last done =>
          rw [next_operand tier operand]
          split
          · exact ⟨branch, last :: done, rfl, operand⟩
          · exact ⟨_, done, rfl, rfl⟩

/-- Behind its first branch a pass keeps only operators that are allowed. -/
structure KeepsAllowed (allows : Bytes → Prop) (progress : Progress) : Prop where
  nonempty : progress.stack ≠ []
  allowed : OperatorsAllowed allows progress.stack.dropLast

/-- A branch on top of the others may be exchanged for an operand. -/
theorem operatorsAllowed_dropLast_exchange {allows : Bytes → Prop} {last joined : Tree}
    {done : List Tree} (operand : joined.isOperator = false)
    (allowed : OperatorsAllowed allows (last :: done).dropLast) :
    OperatorsAllowed allows (joined :: done).dropLast := by
  cases done with
  | nil => simp [OperatorsAllowed]
  | cons head done =>
      intro text pos mem
      rw [List.dropLast_cons_cons, List.mem_cons] at mem
      rcases mem with rfl | mem
      · cases operand
      · exact allowed text pos (by simp [mem])

/-- A branch may be put on top of the others unless it is an operator that is not
allowed. -/
theorem operatorsAllowed_dropLast_push {allows : Bytes → Prop} {branch last : Tree}
    {done : List Tree} (fits : OperatorsAllowed allows [branch])
    (allowed : OperatorsAllowed allows (last :: done).dropLast) :
    OperatorsAllowed allows (branch :: last :: done).dropLast := by
  intro text pos mem
  rw [List.dropLast_cons_cons, List.mem_cons] at mem
  rcases mem with rfl | mem
  · exact fits text pos (by simp)
  · exact allowed text pos mem

theorem operatorsAllowed_operand (allows : Bytes → Prop) {branch : Tree}
    (operand : branch.isOperator = false) : OperatorsAllowed allows [branch] := by
  intro text pos mem
  obtain rfl := List.mem_singleton.mp mem
  cases operand

theorem keepsAllowed_next {tier : List Operator} {allows : Bytes → Prop} {progress : Progress}
    (keeps : KeepsAllowed (Outside tier allows) progress) {branch : Tree}
    (fits : OperatorsAllowed allows [branch]) :
    KeepsAllowed (Outside tier allows) (progress.next tier branch) := by
  obtain ⟨nonempty, allowed⟩ := keeps
  cases progress with
  | waiting text pos left done =>
      exact ⟨by simp [stack], operatorsAllowed_dropLast_exchange rfl allowed⟩
  | settled done =>
      cases done with
      | nil => exact absurd rfl nonempty
      | cons last done =>
          cases kind : branch.isOperator with
          | true =>
              obtain ⟨text, pos, rfl⟩ := exists_of_isOperator kind
              rw [next_operator]
              split
              · exact ⟨by simp [stack], allowed⟩
              next outside =>
                refine ⟨by simp [stack], operatorsAllowed_dropLast_push ?_ allowed⟩
                intro symbol offset mem
                obtain ⟨rfl, rfl⟩ : symbol = text ∧ offset = pos := by simpa using mem
                exact ⟨fits symbol offset mem, outside⟩
          | false =>
              rw [next_operand tier kind]
              split
              · exact ⟨by simp [stack],
                  operatorsAllowed_dropLast_push (operatorsAllowed_operand _ kind) allowed⟩
              · exact ⟨by simp [stack], operatorsAllowed_dropLast_exchange rfl allowed⟩

theorem keepsAllowed_foldl {tier : List Operator} {allows : Bytes → Prop} {branches : List Tree}
    (fit : OperatorsAllowed allows branches) {progress : Progress}
    (keeps : KeepsAllowed (Outside tier allows) progress) :
    KeepsAllowed (Outside tier allows) (branches.foldl (next tier) progress) := by
  induction branches generalizing progress with
  | nil => exact keeps
  | cons branch branches ih =>
      have fits : OperatorsAllowed allows [branch] := fun text pos mem =>
        fit text pos (by simp [List.mem_singleton.mp mem])
      exact ih (fun text pos mem => fit text pos (by simp [mem])) (keepsAllowed_next keeps fits)

end Progress

/-- A pass leaves no operator of its tier behind the first branch. -/
theorem operatorsAllowed_tail_pass {tier : List Operator} {allows : Bytes → Prop} {atEnd : Bool}
    {branches joined : List Tree} (allowed : OperatorsAllowed allows branches.tail)
    (passed : pass tier atEnd [] branches = .ok joined) :
    OperatorsAllowed (Outside tier allows) joined.tail := by
  rw [pass_eq_finish_foldl] at passed
  cases branches with
  | nil =>
      cases passed
      simp [OperatorsAllowed]
  | cons branch branches =>
      rw [List.foldl_cons, Progress.next_first] at passed
      rw [List.tail_cons] at allowed
      have start : Progress.KeepsAllowed (Outside tier allows) (.settled [branch]) :=
        ⟨by simp [Progress.stack], by simp [Progress.stack, OperatorsAllowed]⟩
      have run := (Progress.keepsAllowed_foldl allowed start).allowed
      rw [Progress.finish_eq_ok passed, List.dropLast_reverse] at run
      exact fun text pos mem => run text pos (List.mem_reverse.mpr mem)

/-- A pass leaves behind the first branch only operators of the later tiers. -/
theorem operatorsIn_tail_pass {tier : List Operator} {tiers : List (List Operator)} {atEnd : Bool}
    {branches joined : List Tree} (later : OperatorsIn (tier :: tiers) branches.tail)
    (passed : pass tier atEnd [] branches = .ok joined) : OperatorsIn tiers joined.tail := by
  intro text pos mem
  obtain ⟨⟨other, otherMem, inside⟩, outside⟩ :=
    operatorsAllowed_tail_pass later passed text pos mem
  rcases List.mem_cons.mp otherMem with rfl | otherMem
  · exact absurd inside outside
  · exact ⟨other, otherMem, inside⟩

/-- A pass fails only for want of a right operand. -/
theorem isIncomplete_of_pass {tier : List Operator} {branches : List Tree} {error : ParseError}
    (failed : pass tier true [] branches = .error error) : error.isIncomplete := by
  rw [pass_eq_finish_foldl] at failed
  cases progress : branches.foldl (Progress.next tier) (.settled []) with
  | settled done =>
      rw [progress] at failed
      cases failed
  | waiting text pos left done =>
      rw [progress] at failed
      cases failed
      rfl

theorem isIncomplete_of_passes {tiers : List (List Operator)} {branches : List Tree}
    {error : ParseError} (failed : passes true tiers branches = .error error) :
    error.isIncomplete := by
  induction tiers generalizing branches with
  | nil => cases failed
  | cons tier tiers ih =>
      rw [passes] at failed
      split at failed
      · exact ih failed
      next stopped =>
        cases failed
        exact isIncomplete_of_pass stopped

/-- An operator at the end stays there until the pass of its tier. -/
theorem endsWithOperator_pass {tier : List Operator} {atEnd : Bool} {text : Bytes}
    {branches joined : List Tree} (ends : EndsWithOperator text branches)
    (passed : pass tier atEnd [] branches = .ok joined) :
    ¬ Operator.inTier tier text ∧ EndsWithOperator text joined := by
  obtain ⟨front, operand, pos, rfl, kind⟩ := ends
  obtain ⟨top, done, settled, topKind⟩ := Progress.next_operand_settled tier kind
    (front.foldl (Progress.next tier) (.settled []))
  rw [pass_eq_finish_foldl, List.foldl_append, List.foldl_cons, settled, List.foldl_cons,
    Progress.next_operator] at passed
  split at passed
  · cases passed
  next outside =>
    cases passed
    exact ⟨outside, done.reverse, top, pos, by simp, topKind⟩

/-- No operator at the end survives the pass of its tier. -/
theorem passes_ne_ok_of_endsWithOperator {tiers : List (List Operator)} {atEnd : Bool}
    {text : Bytes} {branches joined : List Tree} (ends : EndsWithOperator text branches)
    (inside : ∃ tier ∈ tiers, Operator.inTier tier text) :
    passes atEnd tiers branches ≠ .ok joined := by
  induction tiers generalizing branches with
  | nil => simp at inside
  | cons tier tiers ih =>
      intro passed
      rw [passes] at passed
      split at passed
      next once =>
        obtain ⟨outside, ends⟩ := endsWithOperator_pass ends once
        refine ih ends ?_ passed
        obtain ⟨tier', mem, inside⟩ := inside
        rcases List.mem_cons.mp mem with rfl | mem
        · exact absurd inside outside
        · exact ⟨tier', mem, inside⟩
      next => cases passed

/-- What a pass makes of a sequence whose first branches are settled continues
those branches. -/
theorem continues_of_standsOn {atEnd : Bool} {done : List Tree} {last top : Tree}
    {progress : Progress} {joined : List Tree} (stands : progress.StandsOn done top)
    (kept : top = last ∨ top.isOperator = false) (finished : progress.finish atEnd = .ok joined) :
    Continues joined (last :: done).reverse := by
  obtain ⟨above, grown, same, grew⟩ := stands
  rw [Progress.finish_eq_ok finished] at same
  refine ⟨done.reverse, last, grown, above.reverse, by simp, ?_, ?_⟩
  · rw [← List.reverse_reverse joined, same]
    simp
  · rcases grew with rfl | operand
    · exact kept
    · exact .inr operand

/-- The last branch of a sequence and the branch that continues it lead a pass
to neighbouring places: the branches below are the same, and the topmost one is
the same or an operand. Otherwise the shorter sequence ends with an operator. -/
theorem next_last_cases {tier : List Operator} {atEnd : Bool} {progress : Progress}
    {last grown : Tree} {joined : List Tree}
    (kept : grown = last ∨ grown.isOperator = false)
    (finished : (progress.next tier last).finish atEnd = .ok joined) :
    (∃ text, EndsWithOperator text joined) ∨
      ∃ done top top', joined = (top :: done).reverse ∧
        progress.next tier grown = .settled (top' :: done) ∧
        (top' = top ∨ top'.isOperator = false) := by
  cases progress with
  | waiting text pos left done =>
      cases finished
      exact .inr ⟨done, _, .combination text left grown, rfl, rfl, .inr rfl⟩
  | settled done =>
      cases done with
      | nil =>
          cases finished
          exact .inr ⟨[], last, grown, rfl, rfl, kept⟩
      | cons head done =>
          cases kind : last.isOperator with
          | true =>
              obtain ⟨text, pos, rfl⟩ := exists_of_isOperator kind
              rw [Progress.next_operator] at finished
              split at finished
              · cases finished
              next outside =>
                cases finished
                rcases kept with rfl | operand
                · refine .inr ⟨head :: done, _, _, rfl, ?_, .inl rfl⟩
                  rw [Progress.next_operator, if_neg outside]
                · cases headKind : head.isOperator with
                  | true =>
                      refine .inr ⟨head :: done, _, grown, rfl, ?_, .inr operand⟩
                      rw [Progress.next_operand tier operand, if_pos headKind]
                  | false =>
                      exact .inl ⟨text, done.reverse, head, pos, by simp, headKind⟩
          | false =>
              have operand : grown.isOperator = false := by
                rcases kept with rfl | operand
                · exact kind
                · exact operand
              rw [Progress.next_operand tier kind] at finished
              rw [Progress.next_operand tier operand]
              split at finished
              next headKind =>
                cases finished
                exact .inr ⟨head :: done, last, grown, rfl, by rw [if_pos headKind], kept⟩
              next headKind =>
                cases finished
                exact .inr
                  ⟨done, _, .application head grown, rfl, by rw [if_neg headKind], .inr rfl⟩

/-- One pass over a sequence and over one that continues it: the longer one
fails, or the results continue each other, unless the shorter result ends with
an operator that lacks its right operand. -/
theorem continues_pass {tier : List Operator} {atEnd : Bool}
    {longer shorter joined : List Tree} (continues : Continues longer shorter)
    (passed : pass tier atEnd [] shorter = .ok joined) (atEnd' : Bool) :
    (∃ text, EndsWithOperator text joined) ∨
      (∃ error, pass tier atEnd' [] longer = .error error) ∨
      ∃ joined', pass tier atEnd' [] longer = .ok joined' ∧ Continues joined' joined := by
  obtain ⟨front, last, grown, rest, rfl, rfl, kept⟩ := continues
  rw [pass_eq_finish_foldl, List.foldl_append, List.foldl_cons, List.foldl_nil] at passed
  rw [pass_eq_finish_foldl, List.foldl_append, List.foldl_cons]
  rcases next_last_cases kept passed with ends | ⟨done, top, top', rfl, same, grew⟩
  · exact .inl ends
  · rw [same]
    have stands : Progress.StandsOn done top' (.settled (top' :: done)) :=
      ⟨[], top', rfl, .inl rfl⟩
    cases finished : (rest.foldl (Progress.next tier) (.settled (top' :: done))).finish atEnd' with
    | error error => exact .inr (.inl ⟨error, rfl⟩)
    | ok joined' =>
        exact .inr (.inr ⟨joined', rfl,
          continues_of_standsOn (Progress.standsOn_foldl rest stands) grew finished⟩)

/-- All passes over a sequence and over one that continues it. -/
theorem continues_passes {tiers : List (List Operator)} {atEnd : Bool}
    {longer shorter joined : List Tree} (continues : Continues longer shorter)
    (later : OperatorsIn tiers shorter.tail) (passed : passes atEnd tiers shorter = .ok joined)
    (atEnd' : Bool) :
    (∃ error, passes atEnd' tiers longer = .error error) ∨
      ∃ joined', passes atEnd' tiers longer = .ok joined' ∧ Continues joined' joined := by
  induction tiers generalizing longer shorter with
  | nil =>
      cases passed
      exact .inr ⟨longer, rfl, continues⟩
  | cons tier tiers ih =>
      rw [passes] at passed
      split at passed
      next middle once =>
        have later' := operatorsIn_tail_pass later once
        rcases continues_pass continues once atEnd' with
          ⟨text, ends⟩ | ⟨error, failed⟩ | ⟨middle', once', continues'⟩
        · -- The operator at the end belongs to a later tier, whose pass must fail.
          obtain ⟨front, operand, offset, rfl, kind⟩ := ends
          have inside := later' text offset (by cases front <;> simp)
          exact absurd passed
            (passes_ne_ok_of_endsWithOperator ⟨front, operand, offset, rfl, kind⟩ inside)
        · exact .inl ⟨error, by rw [passes, failed]⟩
        · rw [passes, once']
          exact ih continues' later' passed
      next => cases passed

/-- A rejection that is not for want of more branches leaves several branches
that no operator joins. -/
theorem passes_of_resolve_eq_error {branches : List Tree} {error : ParseError}
    (rejected : resolve true branches = .error error) (final : error.isIncomplete = false) :
    ∃ joined, passes true Operator.tiers branches = .ok joined ∧ 2 ≤ joined.length := by
  unfold resolve at rejected
  split at rejected
  next failed =>
    cases rejected
    rw [isIncomplete_of_passes failed] at final
    cases final
  next => cases rejected
  next => cases rejected
  next joined notEmpty notSingle passed =>
    refine ⟨joined, passed, ?_⟩
    match joined, notEmpty, notSingle with
    | [], notEmpty, _ => exact absurd rfl notEmpty
    | [branch], _, notSingle => exact absurd rfl (notSingle branch)
    | _ :: _ :: _, _, _ => simp

/-- Several branches that no operator joins are rejected. -/
theorem resolve_eq_leftover {atEnd : Bool} {branches joined : List Tree}
    (passed : passes atEnd Operator.tiers branches = .ok joined) (several : 2 ≤ joined.length) :
    resolve atEnd branches = .error (leftover joined) := by
  match joined, passed, several with
  | _ :: _ :: _, passed, _ => rw [resolve, passed]

/-- What continues a finally rejected expression is rejected too. -/
theorem resolve_of_continues {shorter longer : List Tree} {error : ParseError}
    (known : OperatorsKnown shorter) (rejected : resolve true shorter = .error error)
    (final : error.isIncomplete = false) (continues : Continues longer shorter) (atEnd : Bool) :
    ∃ error', resolve atEnd longer = .error error' := by
  obtain ⟨joined, passed, several⟩ := passes_of_resolve_eq_error rejected final
  have later : OperatorsIn Operator.tiers shorter.tail := fun text pos mem =>
    List.any_eq_true.mp (known text pos (List.mem_of_mem_tail mem))
  rcases continues_passes continues later passed atEnd with ⟨error', failed⟩ | ⟨joined', passed', h⟩
  · exact ⟨error', by rw [resolve, failed]⟩
  · obtain ⟨front, last, grown, rest, rfl, rfl, _⟩ := h
    refine ⟨_, resolve_eq_leftover passed' ?_⟩
    simp only [List.length_append, List.length_cons, List.length_nil] at several ⊢
    omega

/-- No continuation of some branches resolves. -/
def Hopeless (branches : List Tree) : Prop :=
  ∀ (atEnd : Bool) (rest : List Tree), ∃ error, resolve atEnd (branches ++ rest) = .error error

/-- Whatever operand comes next, no continuation of some branches resolves. -/
def HopelessBeforeOperand (branches : List Tree) : Prop :=
  ∀ operand : Tree, operand.isOperator = false → Hopeless (branches ++ [operand])

theorem Hopeless.append {branches : List Tree} (hopeless : Hopeless branches)
    (more : List Tree) : Hopeless (branches ++ more) := by
  intro atEnd rest
  rw [List.append_assoc]
  exact hopeless atEnd (more ++ rest)

theorem Hopeless.beforeOperand {branches : List Tree} (hopeless : Hopeless branches) :
    HopelessBeforeOperand branches :=
  fun operand _ => hopeless.append [operand]

/-- A finally rejected expression is hopeless. -/
theorem hopeless_of_resolve {branches : List Tree} {error : ParseError}
    (known : OperatorsKnown branches) (rejected : resolve true branches = .error error)
    (final : error.isIncomplete = false) : Hopeless branches := by
  intro atEnd rest
  refine resolve_of_continues known rejected final ?_ atEnd
  rcases List.eq_nil_or_concat branches with rfl | ⟨front, last, rfl⟩
  · cases rejected
  · exact ⟨front, last, last, rest, by simp, by simp, .inl rfl⟩

/-- A finally rejected expression that ends with an operand is as hopeless with
any other operand at its end. -/
theorem hopelessBeforeOperand_of_resolve {branches : List Tree} {operand : Tree}
    {error : ParseError} (known : OperatorsKnown branches) (kind : operand.isOperator = false)
    (rejected : resolve true (branches ++ [operand]) = .error error)
    (final : error.isIncomplete = false) : HopelessBeforeOperand branches := by
  intro other otherKind atEnd rest
  have known' : OperatorsKnown (branches ++ [operand]) := by
    intro text pos mem
    rcases List.mem_append.mp mem with mem | mem
    · exact known text pos mem
    · obtain rfl := List.mem_singleton.mp mem
      cases kind
  refine resolve_of_continues known' rejected final ?_ atEnd
  exact ⟨branches, operand, other, rest, rfl, by simp, .inr otherKind⟩

end Juxta.Tree
