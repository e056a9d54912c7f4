/-
# Sessions side by side

Two sessions are compared with each other while the same requests are made of both. What
it means for sessions, for the states of their hosts and for values to be related is
left open, and it may change in stages. If two evaluators run programs and call functions
alike, then the values that are handed to the sessions are made alike and the requests
that only look are answered alike. If definitions and new levels keep sessions related as
well, then so is every request.
-/

import Juxta.Proofs.Eval.Host
import Juxta.Session

namespace Juxta.Session

open Run (Agree)

variable {ω σ τ α β γ δ : Type}

/-- Answers that differ at most in their values, which are related. -/
inductive Answer.Alike (alike : α → β → Prop) : Answer α → Answer β → Prop
  | result {value : α} {value' : β} (values : alike value value') :
      Alike alike (.result value) (.result value')
  | failed (failure : Failure) : Alike alike (.failed failure) (.failed failure)
  | found {value : α} {value' : β} (values : alike value value') :
      Alike alike (.found value) (.found value')
  | absent : Alike alike .absent .absent
  | called (isHost : Bool) {result : Except Failure α} {result' : Except Failure β}
      (results : Agree (fun _ => True) alike result result') :
      Alike alike (.called isHost result) (.called isHost result')
  | notFunction : Alike alike .notFunction .notFunction
  | depth (size : Nat) : Alike alike (.depth size) (.depth size)

/-- The answer with its value changed. -/
def Answer.map (change : α → β) : Answer α → Answer β
  | .result value => .result (change value)
  | .failed failure => .failed failure
  | .found value => .found (change value)
  | .absent => .absent
  | .called isHost outcome => .called isHost (outcome.map change)
  | .notFunction => .notFunction
  | .depth size => .depth size

theorem Answer.Alike.map_eq {alike : α → β → Prop} {change : α → γ} {change' : β → γ}
    (same : ∀ {value value'}, alike value value' → change value = change' value')
    {answer : Answer α} {answer' : Answer β} (alike : answer.Alike alike answer') :
    answer.map change = answer'.map change' := by
  cases alike with
  | result values => exact congrArg Answer.result (same values)
  | found values => exact congrArg Answer.found (same values)
  | called isHost results =>
      cases results with
      | ok values => exact congrArg (Answer.called isHost ∘ .ok) (same values)
      | error => rfl
  | failed | absent | notFunction | depth => rfl

/-- The requests that only look at a session. -/
def Request.Observes : Request → Prop
  | eval _ | get _ | call _ _ => True
  | define _ _ | defineSource _ _ | extend _ _ | push | pop => False

/-- A way to compare two sessions with their hosts, in stages. -/
structure Comparison (ω σ τ : Type) [Preorder ω] where
  sessions : ω → Session → Session → Prop
  states : σ → τ → Prop
  values : ω → Value → Value → Prop

namespace Comparison

variable [Preorder ω] (comparison : Comparison ω σ τ)

/-- Two actions that hand back sessions, and results, which are related at a later stage. -/
def Relates (stage : ω) (results : ω → α → β → Prop) (first : StateM σ (α × Session))
    (second : StateM τ (β × Session)) : Prop :=
  ∀ state state', comparison.states state state' → ∃ later, stage ≤ later ∧
    comparison.states (first.run state).2 (second.run state').2 ∧
    comparison.sessions later (first.run state).1.2 (second.run state').1.2 ∧
    results later (first.run state).1.1 (second.run state').1.1

variable {comparison} {stage : ω} {results : ω → α → β → Prop} {results' : ω → γ → δ → Prop}

theorem Relates.ofPure {first : α} {second : β} {session session' : Session}
    (sessions : comparison.sessions stage session session') (related : results stage first second) :
    comparison.Relates stage results (pure (first, session)) (pure (second, session')) :=
  fun _ _ states => ⟨stage, le_rfl, states, sessions, related⟩

theorem Relates.later {later : ω} (le : stage ≤ later) {first : StateM σ (α × Session)}
    {second : StateM τ (β × Session)} (related : comparison.Relates later results first second) :
    comparison.Relates stage results first second := by
  intro state state' states
  obtain ⟨last, le', ending⟩ := related state state' states
  exact ⟨last, le.trans le', ending⟩

theorem Relates.bind {first : StateM σ (α × Session)} {second : StateM τ (β × Session)}
    {next : α × Session → StateM σ (γ × Session)} {next' : β × Session → StateM τ (δ × Session)}
    (related : comparison.Relates stage results first second)
    (after : ∀ later, stage ≤ later → ∀ a b session session',
      comparison.sessions later session session' → results later a b →
      comparison.Relates later results' (next (a, session)) (next' (b, session'))) :
    comparison.Relates stage results' (first >>= next) (second >>= next') := by
  intro state state' states
  obtain ⟨later, le, states, sessions, same⟩ := related state state' states
  obtain ⟨last, le', ending⟩ := after later le _ _ _ _ sessions same _ _ states
  exact ⟨last, le.trans le', ending⟩

/-- Two evaluators do alike what programs and functions ask of them. -/
structure Evaluates (comparison : Comparison ω σ τ) (evaluator : Evaluator σ)
    (evaluator' : Evaluator τ) : Prop where
  seenAsOne : ∀ stage, Value.SeenAsOne (comparison.values stage)
  lasting : Run.Staged.Lasting comparison.values
  get? : ∀ {stage session session'}, comparison.sessions stage session session' → ∀ name,
    Option.Rel (comparison.values stage) (session.get? name) (session'.get? name)
  interpret : ∀ {stage session session'}, comparison.sessions stage session session' →
    ∀ source, comparison.Relates stage
      (fun later => Agree (fun _ => True) (comparison.values later))
      (evaluator.interpret session source) (evaluator'.interpret session' source)
  call : ∀ {stage session session'}, comparison.sessions stage session session' →
    ∀ {function function' argument argument'},
    comparison.values stage (.closure function) (.closure function') →
    comparison.values stage argument argument' →
    comparison.Relates stage (fun later => Agree (fun _ => True) (comparison.values later))
      (evaluator.call session function argument) (evaluator'.call session' function' argument')

/-- Definitions and new levels keep sessions related. -/
structure Changes (comparison : Comparison ω σ τ) : Prop where
  define : ∀ {stage session session'}, comparison.sessions stage session session' →
    ∀ name {value value'}, comparison.values stage value value' →
    ∃ later, stage ≤ later ∧
      comparison.sessions later (session.define name value) (session'.define name value')
  enter : ∀ {stage session session'}, comparison.sessions stage session session' →
    ∀ {bindings bindings' : Dict Value}, bindings.Alike (comparison.values stage) bindings' →
    ∃ later, stage ≤ later ∧
      comparison.sessions later (session.enter bindings) (session'.enter bindings')
  leave : ∀ {stage session session'}, comparison.sessions stage session session' →
    comparison.sessions stage session.leave session'.leave
  depth : ∀ {stage session session'}, comparison.sessions stage session session' →
    session.depth = session'.depth

variable {evaluator : Evaluator σ} {evaluator' : Evaluator τ} {session session' : Session}

section Supply

variable (evaluates : comparison.Evaluates evaluator evaluator')
include evaluates

-- The evaluators reach the items and the entries only through the recursion.
set_option linter.unusedSectionVars false in
mutual

/-- Values are made alike. -/
theorem Evaluates.supply : ∀ {stage : ω} {session session' : Session},
    comparison.sessions stage session session' → ∀ supplied : Supply,
    comparison.Relates stage comparison.values (session.supply evaluator supplied)
      (session'.supply evaluator' supplied)
  | stage, _, _, sessions, .number value => by
      rw [Session.supply, Session.supply]
      exact .ofPure sessions ((evaluates.seenAsOne stage).likeness.ofLayer (.number trivial))
  | stage, _, _, sessions, .string bytes => by
      rw [Session.supply, Session.supply]
      exact .ofPure sessions ((evaluates.seenAsOne stage).likeness.ofLayer (.string bytes))
  | stage, _, _, sessions, .null => by
      rw [Session.supply, Session.supply]
      exact .ofPure sessions ((evaluates.seenAsOne stage).likeness.ofLayer .null)
  | _, _, _, sessions, .list items => by
      rw [Session.supply, Session.supply]
      refine (supplyItems sessions items).bind fun later _ values values' _ _ sessions same => ?_
      exact .ofPure sessions ((evaluates.seenAsOne later).likeness.ofLayer (.list same))
  | _, _, _, sessions, .dictionary entries => by
      rw [Session.supply, Session.supply]
      refine (supplyEntries sessions entries).bind
        fun later _ values values' _ _ sessions same => ?_
      have dicts : (Dict.ofList values).Alike (comparison.values later) (Dict.ofList values') :=
        Dict.Alike.merge .nil (show Dict.Alike _ ⟨values⟩ ⟨values'⟩ from same)
      exact .ofPure sessions ((evaluates.seenAsOne later).likeness.ofLayer (.dictionary dicts))
  | stage, _, _, sessions, .function name => by
      rw [Session.supply, Session.supply]
      exact .ofPure sessions ((evaluates.seenAsOne stage).host name)
  | stage, _, _, sessions, .foreign => by
      rw [Session.supply, Session.supply]
      exact .ofPure sessions (evaluates.seenAsOne stage).foreign
  | stage, _, _, sessions, .nothing => by
      rw [Session.supply, Session.supply]
      exact .ofPure sessions (evaluates.seenAsOne stage).nothing
  | _, _, _, sessions, .program source => by
      rw [Session.supply, Session.supply]
      refine (evaluates.interpret sessions source).bind fun later _ _ _ _ _ sessions same => ?_
      refine .ofPure sessions ?_
      cases same with
      | ok values => exact values
      | error => exact (evaluates.seenAsOne later).nothing

theorem Evaluates.supplyItems : ∀ {stage : ω} {session session' : Session},
    comparison.sessions stage session session' → ∀ items : List Supply,
    comparison.Relates stage (fun later => List.Forall₂ (comparison.values later))
      (session.supplyItems evaluator items) (session'.supplyItems evaluator' items)
  | _, _, _, sessions, [] => by
      rw [Session.supplyItems, Session.supplyItems]
      exact .ofPure sessions .nil
  | _, _, _, sessions, item :: rest => by
      rw [Session.supplyItems, Session.supplyItems]
      refine (supply sessions item).bind fun later _ _ _ _ _ sessions first => ?_
      refine (supplyItems sessions rest).bind fun last le _ _ _ _ sessions others => ?_
      exact .ofPure sessions (.cons (evaluates.lasting le first) others)

theorem Evaluates.supplyEntries : ∀ {stage : ω} {session session' : Session},
    comparison.sessions stage session session' → ∀ entries : List (Bytes × Supply),
    comparison.Relates stage
      (fun later => List.Forall₂ (Dict.EntriesAlike (comparison.values later)))
      (session.supplyEntries evaluator entries) (session'.supplyEntries evaluator' entries)
  | _, _, _, sessions, [] => by
      rw [Session.supplyEntries, Session.supplyEntries]
      exact .ofPure sessions .nil
  | _, _, _, sessions, (key, supplied) :: rest => by
      rw [Session.supplyEntries, Session.supplyEntries]
      refine (supply sessions supplied).bind fun later _ _ _ _ _ sessions first => ?_
      refine (supplyEntries sessions rest).bind fun last le _ _ _ _ sessions others => ?_
      exact .ofPure sessions (.cons ⟨rfl, evaluates.lasting le first⟩ others)

end

end Supply

/-- Functions that hosts see as one belong to the host or do not. -/
theorem isHost_eq {alike : Value → Value → Prop} (seenAsOne : Value.SeenAsOne alike)
    {function function' : Closure Value}
    (functions : alike (.closure function) (.closure function')) :
    isHost function = isHost function' := by
  have dumps := seenAsOne.dump_eq functions
  cases function <;> cases function' <;> first | rfl | cases dumps

/-- Requests that only look are answered alike. -/
theorem Evaluates.perform_of_observes (evaluates : comparison.Evaluates evaluator evaluator')
    (sessions : comparison.sessions stage session session') {request : Request}
    (observes : request.Observes) :
    comparison.Relates stage (fun later => Answer.Alike (comparison.values later))
      (session.perform evaluator request) (session'.perform evaluator' request) := by
  cases request with
  | define | defineSource | extend | push | pop => exact observes.elim
  | eval source =>
      refine (evaluates.interpret sessions source).bind fun later _ _ _ _ _ sessions same => ?_
      cases same with
      | ok values => exact .ofPure sessions (.result values)
      | error => exact .ofPure sessions (.failed _)
  | get name =>
      have found := evaluates.get? sessions name
      rw [perform, perform]
      generalize session.get? name = here, session'.get? name = here' at found
      cases found with
      | some values => exact .ofPure sessions (.found values)
      | none => exact .ofPure sessions .absent
  | call name argument =>
      refine (evaluates.supply sessions argument).bind
        fun later _ value value' ready ready' sessions arguments => ?_
      have found := evaluates.get? sessions name
      have seenAsOne := evaluates.seenAsOne later
      dsimp only
      generalize ready.get? name = here, ready'.get? name = here' at found ⊢
      cases found with
      | none => exact .ofPure sessions .notFunction
      | some values =>
          cases seenAsOne.likeness.layer values with
          | closure functions =>
              refine (evaluates.call sessions functions arguments).bind
                fun last _ _ _ _ _ sessions same => ?_
              rw [isHost_eq seenAsOne functions]
              exact .ofPure sessions (.called _ same)
          | _ => exact .ofPure sessions .notFunction

/-- Every request is answered alike. -/
theorem Evaluates.perform (evaluates : comparison.Evaluates evaluator evaluator')
    (changes : comparison.Changes) (sessions : comparison.sessions stage session session')
    (request : Request) :
    comparison.Relates stage (fun later => Answer.Alike (comparison.values later))
      (session.perform evaluator request) (session'.perform evaluator' request) := by
  cases request with
  | eval | get | call => exact evaluates.perform_of_observes sessions trivial
  | define name supplied =>
      refine (evaluates.supply sessions supplied).bind fun later _ _ _ _ _ sessions values => ?_
      obtain ⟨last, le, defined⟩ := changes.define sessions name values
      exact .later le (.ofPure defined (.result (evaluates.lasting le values)))
  | defineSource name source =>
      refine (evaluates.interpret sessions source).bind fun later _ _ _ _ _ sessions same => ?_
      cases same with
      | ok values =>
          obtain ⟨last, le, defined⟩ := changes.define sessions name values
          exact .later le (.ofPure defined (.result (evaluates.lasting le values)))
      | error => exact .ofPure sessions (.failed _)
  | extend name supplied =>
      refine (evaluates.supply sessions supplied).bind fun later _ _ _ _ _ sessions values => ?_
      have bindings : Dict.Alike (comparison.values later) (Dict.empty.set name _)
          (Dict.empty.set name _) := Dict.Alike.set .nil name values
      obtain ⟨last, le, entered⟩ := changes.enter sessions bindings
      dsimp only
      rw [changes.depth entered]
      exact .later le (.ofPure entered (.depth _))
  | push =>
      have bindings : Dict.Alike (comparison.values stage) Dict.empty Dict.empty := .nil
      obtain ⟨last, le, entered⟩ := changes.enter sessions bindings
      rw [Session.perform, Session.perform, changes.depth entered]
      exact .later le (.ofPure entered (.depth _))
  | pop =>
      have left := changes.leave sessions
      rw [Session.perform, Session.perform, changes.depth left]
      exact .ofPure left (.depth _)

end Comparison

end Juxta.Session
