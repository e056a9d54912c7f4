/-
# Token sequences that no continuation mends

When the tokens end, the reader completes the innermost expression and the
function bodies that end with it. If this fails for good, some expression among
them is hopeless, and it stays so while further tokens are read: a bracket or a
function literal inside it becomes one more operand, and a terminator that would
complete it fails. Hence every rejection of some tokens that is not for want of
more is a rejection of all their continuations.
-/

import Juxta.Proofs.Tree.Extension
import Juxta.Proofs.Tree.Reading

namespace Juxta.Tree

/-- Some frame holds branches that no further operand mends. -/
def FramesStuck (frames : List Frame) : Prop :=
  ∃ frame ∈ frames, HopelessBeforeOperand frame.before.reverse

theorem FramesStuck.cons {frames : List Frame} (stuck : FramesStuck frames) (frame : Frame) :
    FramesStuck (frame :: frames) := by
  obtain ⟨other, mem, hopeless⟩ := stuck
  exact ⟨other, List.mem_cons_of_mem frame mem, hopeless⟩

/-- Every operator in the frames is known. -/
def FramesKnown (frames : List Frame) : Prop :=
  ∀ frame ∈ frames, OperatorsKnown frame.before

theorem OperatorsKnown.reverse {branches : List Tree} (known : OperatorsKnown branches) :
    OperatorsKnown branches.reverse :=
  fun text pos mem => known text pos (List.mem_reverse.mp mem)

theorem OperatorsKnown.cons_operand {branches : List Tree} {branch : Tree}
    (known : OperatorsKnown branches) (operand : branch.isOperator = false) :
    OperatorsKnown (branch :: branches) := by
  intro text pos mem
  rcases List.mem_cons.mp mem with rfl | mem
  · cases operand
  · exact known text pos mem

/-- Completing an expression fails in the expression itself or in the last
operand of a frame around it. -/
theorem settle_eq_error {atEnd : Bool} {frames : List Frame} {branches : List Tree}
    {error : ParseError} (failed : settle atEnd frames branches = .error error) :
    resolve atEnd branches.reverse = .error error ∨
      ∃ frame ∈ frames, ∃ operand : Tree, operand.isOperator = false ∧
        resolve atEnd (frame.before.reverse ++ [operand]) = .error error := by
  induction frames generalizing branches with
  | nil =>
      rw [settle] at failed
      split at failed
      next rejected =>
        cases failed
        exact .inl rejected
      next => cases failed
  | cons frame frames ih =>
      rw [settle] at failed
      split at failed
      next rejected =>
        cases failed
        exact .inl rejected
      next tree resolved =>
        cases frame with
        | bracket opening before => cases failed
        | body parameter before =>
            right
            rcases ih failed with rejected | ⟨other, mem, operand, kind, rejected⟩
            · refine ⟨.body parameter before, by simp, functionOf parameter tree, rfl, ?_⟩
              simpa [Frame.before] using rejected
            · exact ⟨other, List.mem_cons_of_mem _ mem, operand, kind, rejected⟩

/-- If a hopeless expression is being read, what can be completed ends at a
bracket, and the branches before that bracket or around it are stuck. -/
theorem settle_of_stuck {atEnd : Bool} {frames : List Frame} {branches : List Tree} {tree : Tree}
    {enclosing? : Option Enclosing} (stuck : Hopeless branches.reverse ∨ FramesStuck frames)
    (settled : settle atEnd frames branches = .ok (tree, enclosing?)) :
    ∃ enclosing, enclosing? = some enclosing ∧
      (HopelessBeforeOperand enclosing.before.reverse ∨ FramesStuck enclosing.frames) := by
  induction frames generalizing branches with
  | nil =>
      rcases stuck with hopeless | ⟨frame, mem, _⟩
      · obtain ⟨error, rejected⟩ := hopeless atEnd []
        rw [List.append_nil] at rejected
        rw [settle, rejected] at settled
        cases settled
      · cases mem
  | cons frame frames ih =>
      rw [settle] at settled
      split at settled
      · cases settled
      next inner resolved =>
        -- The innermost expression resolved, so one of the frames is stuck.
        obtain ⟨other, mem, hopeless⟩ : FramesStuck (frame :: frames) := by
          rcases stuck with hopeless | stuck
          · obtain ⟨error, rejected⟩ := hopeless atEnd []
            rw [List.append_nil, resolved] at rejected
            cases rejected
          · exact stuck
        cases frame with
        | bracket opening before =>
            cases settled
            refine ⟨⟨opening, before, frames⟩, rfl, ?_⟩
            rcases List.mem_cons.mp mem with rfl | mem
            · exact .inl hopeless
            · exact .inr ⟨other, mem, hopeless⟩
        | body parameter before =>
            refine ih ?_ settled
            rcases List.mem_cons.mp mem with rfl | mem
            · have joined := hopeless (functionOf parameter inner) rfl
              exact .inl (by simpa [Frame.before] using joined)
            · exact .inr ⟨other, mem, hopeless⟩

namespace Reading

/-- Some expression that is being read is hopeless. -/
def Stuck : Reading → Prop
  | inside frames branches => Hopeless branches.reverse ∨ FramesStuck frames
  | afterBackslash _ frames branches =>
      HopelessBeforeOperand branches.reverse ∨ FramesStuck frames

/-- Every operator that was read is known. -/
def Known : Reading → Prop
  | inside frames branches => OperatorsKnown branches ∧ FramesKnown frames
  | afterBackslash _ frames branches => OperatorsKnown branches ∧ FramesKnown frames

/-- A hopeless expression stays hopeless after one more token. -/
theorem stuck_of_advances {token : Token} {reading later : Reading} (stuck : reading.Stuck)
    (advances : Advances token reading later) : later.Stuck := by
  cases advances with
  | operand kind =>
      rcases stuck with hopeless | stuck
      · exact .inl (by simpa using hopeless.append [_])
      · exact .inr stuck
  | operator kind =>
      rcases stuck with hopeless | stuck
      · exact .inl (by simpa using hopeless.append [_])
      · exact .inr stuck
  | skip => exact stuck
  | opens opening =>
      rcases stuck with hopeless | stuck
      · exact .inr ⟨_, List.mem_cons_self, hopeless.beforeOperand⟩
      · exact .inr (stuck.cons _)
  | backslash kind =>
      rcases stuck with hopeless | stuck
      · exact .inl hopeless.beforeOperand
      · exact .inr stuck
  | parameter name =>
      rcases stuck with hopeless | stuck
      · exact .inr ⟨_, List.mem_cons_self, hopeless⟩
      · exact .inr (stuck.cons _)
  | completes settled kind =>
      obtain ⟨enclosing, same, stuck⟩ := settle_of_stuck stuck settled
      cases same
      rcases stuck with hopeless | stuck
      · exact .inl (by simpa using hopeless _ kind)
      · exact .inr stuck
  | separates settled opening =>
      obtain ⟨enclosing, same, stuck⟩ := settle_of_stuck stuck settled
      cases same
      rcases stuck with hopeless | stuck
      · exact .inr ⟨_, List.mem_cons_self, hopeless⟩
      · exact .inr (stuck.cons _)

theorem finish_of_stuck {reading : Reading} (stuck : reading.Stuck) :
    ∃ error, reading.finish = .error error := by
  cases reading with
  | afterBackslash pos frames branches => exact ⟨_, rfl⟩
  | inside frames branches =>
      cases settled : settle true frames branches with
      | error error => exact ⟨error, by rw [finish, settled]⟩
      | ok result =>
          obtain ⟨tree, enclosing?⟩ := result
          obtain ⟨enclosing, rfl, _⟩ := settle_of_stuck stuck settled
          exact ⟨_, by rw [finish, settled]⟩

/-- No tokens lead out of a stuck reading. -/
theorem run_of_stuck (tokens : List Token) {reading : Reading} (stuck : reading.Stuck) :
    ∃ error, reading.run tokens = .error error := by
  induction tokens generalizing reading with
  | nil =>
      obtain ⟨error, failed⟩ := finish_of_stuck stuck
      exact ⟨error, by rw [run, failed]; rfl⟩
  | cons token tokens ih =>
      rw [run]
      cases response : reading.next token with
      | goOn later => exact ih (stuck_of_advances stuck (advances_of_next response))
      | fail error => exact ⟨error, rfl⟩
      | stop tree =>
          obtain ⟨frames, branches, rfl, settled⟩ := settle_of_next_eq_stop response
          obtain ⟨_, impossible, _⟩ := settle_of_stuck stuck settled
          cases impossible

theorem framesKnown_cons {frames : List Frame} {frame : Frame} (known : OperatorsKnown frame.before)
    (framesKnown : FramesKnown frames) : FramesKnown (frame :: frames) := by
  intro other mem
  rcases List.mem_cons.mp mem with rfl | mem
  · exact known
  · exact framesKnown other mem

/-- Operators stay known while only known ones are read. -/
theorem known_of_advances {token : Token} {reading later : Reading} (known : reading.Known)
    (fits : token.kind = .operator → Operator.isKnown token.text)
    (advances : Advances token reading later) : later.Known := by
  have none : OperatorsKnown [] := fun _ _ mem => absurd mem List.not_mem_nil
  cases advances with
  | operand kind => exact ⟨known.1.cons_operand kind, known.2⟩
  | operator kind =>
      refine ⟨fun text pos mem => ?_, known.2⟩
      rcases List.mem_cons.mp mem with same | mem
      · injection same with same _
        exact same ▸ fits kind
      · exact known.1 text pos mem
  | skip => exact known
  | opens opening => exact ⟨none, framesKnown_cons known.1 known.2⟩
  | backslash kind => exact known
  | parameter name => exact ⟨none, framesKnown_cons known.1 known.2⟩
  | completes settled kind =>
      obtain ⟨_, mem, subset⟩ := settle_eq_ok settled
      exact ⟨(known.2 _ mem).cons_operand kind, fun frame inside => known.2 frame (subset inside)⟩
  | separates settled opening =>
      obtain ⟨_, mem, subset⟩ := settle_eq_ok settled
      have before := known.2 _ mem
      exact ⟨none, framesKnown_cons before fun frame inside => known.2 frame (subset inside)⟩

/-- A reading that fails for good at the end of the tokens is stuck. -/
theorem stuck_of_finish {reading : Reading} {error : ParseError} (known : reading.Known)
    (failed : reading.finish = .error error) (final : error.isIncomplete = false) :
    reading.Stuck := by
  cases reading with
  | afterBackslash pos frames branches =>
      cases failed
      cases final
  | inside frames branches =>
      rw [finish] at failed
      split at failed
      next rejected =>
        cases failed
        rcases settle_eq_error rejected with rejected | ⟨frame, mem, operand, kind, rejected⟩
        · exact .inl (hopeless_of_resolve known.1.reverse rejected final)
        · have before := (known.2 frame mem).reverse
          exact .inr ⟨frame, mem, hopelessBeforeOperand_of_resolve before kind rejected final⟩
      next => cases failed
      next =>
        cases failed
        cases final

/-- Tokens that fail for good fail with whatever follows them. -/
theorem run_append_of_error {first : List Token} {reading : Reading} {error : ParseError}
    (known : reading.Known)
    (tokensKnown : ∀ token ∈ first, token.kind = .operator → Operator.isKnown token.text)
    (failed : reading.run first = .error error) (final : error.isIncomplete = false)
    (second : List Token) : ∃ error', reading.run (first ++ second) = .error error' := by
  induction first generalizing reading with
  | nil => exact run_of_stuck second (stuck_of_finish known (run_nil_eq_error failed) final)
  | cons token first ih =>
      rw [List.cons_append, run]
      rcases run_cons_eq_error failed with ⟨later, response, failed⟩ | response
      · rw [response]
        have advances := advances_of_next response
        have laterKnown := known_of_advances known (tokensKnown token List.mem_cons_self) advances
        exact ih laterKnown (fun other mem => tokensKnown other (by simp [mem])) failed
      · rw [response]
        exact ⟨error, rfl⟩

/-- A token that stops a reading stops it whatever follows. -/
theorem run_append_of_stop {first : List Token} {reading : Reading} {tree : Tree} {token : Token}
    {rest : List Token} (stopped : reading.run first = .ok (tree, token :: rest))
    (second : List Token) :
    reading.run (first ++ second) = .ok (tree, token :: rest ++ second) := by
  induction first generalizing reading with
  | nil => cases (run_nil_eq_ok stopped).2
  | cons head first ih =>
      rw [List.cons_append, run]
      rcases run_cons_eq_ok stopped with ⟨later, response, stopped⟩ | ⟨response, same⟩
      · rw [response]
        exact ih stopped
      · rw [response]
        cases same
        rfl

end Reading

/-- Tokens that are rejected for good are rejected with whatever follows them. -/
theorem parse_append_of_error {first : List Token} {error : ParseError}
    (known : ∀ token ∈ first, token.kind = .operator → Operator.isKnown token.text)
    (rejected : parse first = .error error) (final : error.isIncomplete = false)
    (second : List Token) : ∃ error', parse (first ++ second) = .error error' := by
  have start : (Reading.inside [] []).Known :=
    ⟨fun _ _ mem => absurd mem List.not_mem_nil, fun _ mem => absurd mem List.not_mem_nil⟩
  rw [parse, readExpression, read_eq_run] at rejected
  rw [parse, readExpression, read_eq_run]
  split at rejected
  next failed =>
    cases rejected
    obtain ⟨error', failed'⟩ := Reading.run_append_of_error start known failed final second
    exact ⟨error', by rw [failed']⟩
  next => cases rejected
  next stopped =>
    rw [Reading.run_append_of_stop stopped second]
    exact ⟨_, rfl⟩

end Juxta.Tree
