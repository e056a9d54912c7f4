/-
# Runs side by side

A relation between runs passes through the steps that evaluation is made of: it
holds of related results, of two failures that are the same, and of runs one
after the other. So a statement about two evaluations, or about one evaluation
seen with more of its history, is proved once for each node of a tree, and what
is left to show for one relation is how it treats the calls of the host. What it
means for results to be related may also change while the runs go on, in stages,
as long as what is related stays related. The first such relation has one stage and
compares the states: from related states two runs end in related states and either
fail alike or give related results.
-/

import Juxta.Eval.Run
import Mathlib.Data.List.Forall2
import Mathlib.Order.Basic

namespace Juxta

/-- An error that blames the operands of an operator or of a call, and not the
tree: neither is the operator unknown nor does a node lack. -/
def EvalError.IsOrdinary (error : EvalError) : Prop :=
  error.cause ≠ .unknownOperator ∧ error.cause ≠ .unknownNode

namespace Run

variable {σ τ α β γ δ : Type}

/-- The outcome of a run that starts in a state, with the state after it. -/
def start (run : Run σ α) (state : σ) : Except Failure α × σ := run.run.run state

theorem start_bind (run : Run σ α) (next : α → Run σ β) (state : σ) :
    (run >>= next).start state =
      match run.start state with
      | (.ok result, later) => (next result).start later
      | (.error failure, later) => (.error failure, later) := by
  have unfolded : (run >>= next).start state =
      (ExceptT.bindCont next (run.start state).1).run (run.start state).2 := rfl
  rw [unfolded]
  cases run.start state with
  | mk outcome later => cases outcome <;> rfl

theorem start_ofHost (call : ExceptT Bytes (StateM σ) α) (state : σ) :
    (ofHost call).start state =
      ((call.run.run state).1.mapError .host, (call.run.run state).2) := by
  rw [start, ofHost, ExceptT.run_mk, StateT.run_bind]
  rcases call.run.run state with ⟨outcome, later⟩
  cases outcome <;> rfl

/-- Two runs that start alike in every state are equal. -/
theorem eq_of_start {first second : Run σ α}
    (same : ∀ state, first.start state = second.start state) : first = second :=
  funext same

theorem run_bind_pure (call : ExceptT Bytes (StateM σ) α) (result : β) (state : σ) :
    (call >>= fun _ => pure result).run.run state =
      ((call.run.run state).1.map fun _ => result, (call.run.run state).2) := by
  let next : α → ExceptT Bytes (StateM σ) β := fun _ => pure result
  have unfolded : (call >>= next).run.run state =
      (ExceptT.bindCont next (call.run.run state).1).run (call.run.run state).2 := rfl
  rw [unfolded]
  rcases call.run.run state with ⟨outcome, later⟩
  cases outcome <;> rfl

theorem ofHost_bind_pure (call : ExceptT Bytes (StateM σ) α) (result : β) :
    ofHost (call >>= fun _ => pure result) = ofHost call >>= fun _ => pure result := by
  apply eq_of_start
  intro state
  rw [start_bind, start_ofHost, start_ofHost, run_bind_pure]
  rcases call.run.run state with ⟨outcome, later⟩
  cases outcome <;> rfl

/-- Two outcomes that give related results, or fail alike with a permitted failure. -/
inductive Agree {ε : Type} (permits : ε → Prop) (results : α → β → Prop) :
    Except ε α → Except ε β → Prop
  | ok {first : α} {second : β} (related : results first second) :
      Agree permits results (.ok first) (.ok second)
  | error {failure : ε} (permitted : permits failure) :
      Agree permits results (.error failure) (.error failure)

theorem Agree.imp {ε : Type} {permits : ε → Prop} {results results' : α → β → Prop}
    (weaker : ∀ a b, results a b → results' a b) {first : Except ε α} {second : Except ε β}
    (agree : Agree permits results first second) : Agree permits results' first second := by
  cases agree with
  | ok related => exact .ok (weaker _ _ related)
  | error permitted => exact .error permitted

/-- A way to relate runs that passes through their steps. It permits some
failures, the ordinary errors of evaluation among them. -/
structure Relation (σ τ : Type) where
  relates : {α β : Type} → (α → β → Prop) → Run σ α → Run τ β → Prop
  permits : Failure → Prop
  ordinary : ∀ {error : EvalError}, error.IsOrdinary → permits (.eval error)
  ofPure : ∀ {α β : Type} {results : α → β → Prop} {first : α} {second : β},
    results first second → relates results (pure first) (pure second)
  ofThrow : ∀ {α β : Type} {results : α → β → Prop} {failure : Failure},
    permits failure → relates results (throw failure) (throw failure)
  bind : ∀ {α β γ δ : Type} {results : α → β → Prop} {results' : γ → δ → Prop}
    {first : Run σ α} {second : Run τ β} {next : α → Run σ γ} {next' : β → Run τ δ},
    relates results first second →
    (∀ a b, results a b → relates results' (next a) (next' b)) →
    relates results' (first >>= next) (second >>= next')

/-- A way to relate runs in stages. What is related may depend on the stage that two runs
have reached, and a step may lead to a later stage. -/
structure Staged (ω σ τ : Type) [Preorder ω] where
  relates : {α β : Type} → ω → (ω → α → β → Prop) → Run σ α → Run τ β → Prop
  permits : Failure → Prop
  ordinary : ∀ {error : EvalError}, error.IsOrdinary → permits (.eval error)
  ofPure : ∀ {α β : Type} {stage : ω} {results : ω → α → β → Prop} {first : α} {second : β},
    results stage first second → relates stage results (pure first) (pure second)
  ofThrow : ∀ {α β : Type} {stage : ω} {results : ω → α → β → Prop} {failure : Failure},
    permits failure → relates stage results (throw failure) (throw failure)
  bind : ∀ {α β γ δ : Type} {stage : ω} {results : ω → α → β → Prop}
    {results' : ω → γ → δ → Prop} {first : Run σ α} {second : Run τ β} {next : α → Run σ γ}
    {next' : β → Run τ δ}, relates stage results first second →
    (∀ later, stage ≤ later → ∀ a b, results later a b →
      relates later results' (next a) (next' b)) →
    relates stage results' (first >>= next) (second >>= next')

/-- The one stage of what does not change. -/
inductive Always
  | now

instance : Preorder Always where
  le _ _ := True
  le_refl _ := trivial
  le_trans _ _ _ _ _ := trivial

/-- A relation with a single stage. -/
def Relation.steady (relation : Relation σ τ) : Staged Always σ τ where
  relates _ results := relation.relates (results .now)
  permits := relation.permits
  ordinary := relation.ordinary
  ofPure := relation.ofPure
  ofThrow := relation.ofThrow
  bind related later := relation.bind related fun a b same => later .now trivial a b same

namespace Staged

variable {ω : Type} [Preorder ω] (relation : Staged ω σ τ) {stage : ω}
  {results : ω → α → β → Prop} {results' : ω → γ → δ → Prop}

theorem map {first : Run σ α} {second : Run τ β} {change : α → γ} {change' : β → δ}
    (related : relation.relates stage results first second)
    (after : ∀ later a b, results later a b → results' later (change a) (change' b)) :
    relation.relates stage results' (change <$> first) (change' <$> second) := by
  rw [map_eq_pure_bind, map_eq_pure_bind]
  exact relation.bind related fun later _ a b same => relation.ofPure (after later a b same)

theorem ofEval {first : Except EvalError α} {second : Except EvalError β}
    (agree : Agree EvalError.IsOrdinary (results stage) first second) :
    relation.relates stage results (Run.ofEval first) (Run.ofEval second) := by
  cases agree with
  | ok related => exact relation.ofPure related
  | error isOrdinary => exact relation.ofThrow (relation.ordinary isOrdinary)

/-- What is related at a stage is related at all later ones. -/
def Lasting (results : ω → α → β → Prop) : Prop :=
  ∀ {stage later : ω}, stage ≤ later → ∀ {a : α} {b : β}, results stage a b → results later a b

/-- Runs on related items, one after the other. Items that wait and results that are
there already stay related while the others run. -/
theorem mapM {ι κ : Type} {inputs : ω → ι → κ → Prop} (inputsLast : Lasting inputs)
    (resultsLast : Lasting results) {run : ι → Run σ α} {run' : κ → Run τ β} {start : ω}
    (each : ∀ stage, start ≤ stage → ∀ item item', inputs stage item item' →
      relation.relates stage results (run item) (run' item'))
    {items : List ι} {items' : List κ} (reached : start ≤ stage)
    (related : List.Forall₂ (inputs stage) items items') :
    relation.relates stage (fun later => List.Forall₂ (results later)) (items.mapM run)
      (items'.mapM run') := by
  induction items generalizing items' stage with
  | nil =>
      cases related
      exact relation.ofPure .nil
  | cons item items ih =>
      cases related with
      | cons same rest =>
          rw [List.mapM_cons, List.mapM_cons]
          refine relation.bind (each stage reached _ _ same) fun later le a b result => ?_
          have waiting := rest.imp fun _ _ => inputsLast le
          refine relation.bind (ih (reached.trans le) waiting) fun latest le' as bs others => ?_
          exact relation.ofPure (.cons (resultsLast le' result) others)

end Staged

/-- From related states two runs end in related states, with outcomes that agree. -/
def Related (states : σ → τ → Prop) (results : α → β → Prop) (first : Run σ α)
    (second : Run τ β) : Prop :=
  ∀ state state', states state state' →
    Agree (fun _ => True) results (first.start state).1 (second.start state').1 ∧
      states (first.start state).2 (second.start state').2

variable {states : σ → τ → Prop} {results : α → β → Prop} {results' : γ → δ → Prop}

theorem related_pure {first : α} {second : β} (related : results first second) :
    Related states results (pure first) (pure second) :=
  fun _ _ before => ⟨.ok related, before⟩

theorem related_throw (failure : Failure) :
    Related states results (throw failure : Run σ α) (throw failure : Run τ β) :=
  fun _ _ before => ⟨.error trivial, before⟩

theorem Related.bind {first : Run σ α} {second : Run τ β} {next : α → Run σ γ}
    {next' : β → Run τ δ} (related : Related states results first second)
    (later : ∀ a b, results a b → Related states results' (next a) (next' b)) :
    Related states results' (first >>= next) (second >>= next') := by
  intro state state' before
  obtain ⟨agree, after⟩ := related state state' before
  rw [start_bind, start_bind]
  revert agree after
  rcases first.start state with ⟨outcome, middle⟩
  rcases second.start state' with ⟨outcome', middle'⟩
  intro agree after
  cases agree with
  | ok same => exact later _ _ same middle middle' after
  | error permitted => exact ⟨.error permitted, after⟩

/-- The relation that compares the states. It permits every failure. -/
def relatedBy (states : σ → τ → Prop) : Relation σ τ where
  relates := Related states
  permits _ := True
  ordinary _ := trivial
  ofPure := related_pure
  ofThrow _ := related_throw _
  bind := Related.bind

end Run

end Juxta
