/-
# Evaluation in an arena only adds levels

Whatever a run in an arena finds, it leaves there: each level keeps its number, its
bindings and the level around it, also where the run fails, and new levels come after
the old ones. This is so for every tree, for calls of every depth and with every host.
Two runs from the same levels also make the same levels, as long as the host answers
them alike.
-/

import Juxta.Eval.Arena
import Juxta.Proofs.Eval.Sort
import Juxta.Proofs.Value.Environment

namespace Juxta.Arena

open Run (Related)

variable {σ α : Type}

theorem start_enter_none (scope : Scope Value) (argument : Value) (arena : Arena σ) :
    (enter scope none argument).start arena = (.ok scope, arena) :=
  rfl

theorem start_enter_some (scope : Scope Value) (name : Bytes) (argument : Value)
    (arena : Arena σ) :
    (enter scope (some name) argument).start arena =
      (.ok (Scope.atLevel arena.environment.size), { arena with
        environment := arena.environment.nest scope.level (Dict.empty.set name argument) }) :=
  rfl

theorem start_outside (run : Run σ α) (arena : Arena σ) :
    (outside run).start arena =
      ((run.start arena.state).1, { arena with state := (run.start arena.state).2 }) :=
  rfl

/-- Two arenas with the same levels, all levels of an environment among them, and with
related states of the host. -/
def Keeps (environment : Environment) (states : σ → σ → Prop) (first second : Arena σ) : Prop :=
  environment ≤ first.environment ∧ first.environment = second.environment ∧
    states first.state second.state

variable {environment : Environment} {states : σ → σ → Prop}

theorem related_look (scope : Scope Value) (name : Bytes) :
    Related (Keeps environment states) (Value.Same fun _ => True) (look scope name)
      (look scope name) := by
  rintro ⟨levels, state⟩ ⟨_, state'⟩ ⟨le, rfl, related⟩
  exact ⟨.ok ⟨trivial, rfl⟩, le, rfl, related⟩

theorem related_enter (scope : Scope Value) (parameter : Option Bytes) (argument : Value) :
    Related (Keeps environment states) Eq (enter scope parameter argument)
      (enter scope parameter argument) := by
  rintro ⟨levels, state⟩ ⟨_, state'⟩ ⟨le, rfl, related⟩
  cases parameter with
  | none => exact ⟨.ok rfl, le, rfl, related⟩
  | some name => exact ⟨.ok rfl, le.trans (levels.le_nest _ _), rfl, related⟩

theorem related_outside {results : α → α → Prop} {run : Run σ α}
    (related : Related states results run run) :
    Related (Keeps environment states) results (outside run) (outside run) := by
  rintro ⟨levels, state⟩ ⟨_, state'⟩ ⟨le, rfl, before⟩
  obtain ⟨agree, after⟩ := related state state' before
  exact ⟨agree, le, rfl, after⟩

/-- A tree only adds levels, if calls do. -/
theorem related_evalWith {call : Closure Value → Value → Run (Arena σ) Value}
    (calls : CallsAlike (Run.relatedBy (Keeps environment states)) (Value.Same fun _ => True)
      call call) (scope : Scope Value) (tree : Tree) :
    Related (Keeps environment states) (Value.Same fun _ => True)
      (tree.evalWith look call scope) (tree.evalWith look call scope) := by
  have likeness := (Value.ClosedSort.all environment).likeness
  exact Tree.relatedFrom_evalWith likeness.steady calls.steady
    (Tree.matching_eq fun _ => trivial)
    ⟨fun name _ _ _ => related_look scope name, fun _ _ _ _ _ same => ⟨trivial, by rw [same]⟩⟩
    tree tree rfl .now le_rfl

variable {host : Host σ} (hosts : host.Alike (Run.relatedBy states) (fun _ => True) host)
include hosts

/-- Calls of every depth only add levels. -/
theorem callsAlike_keeps (environment : Environment) (depth : Nat) :
    CallsAlike (Run.relatedBy (Keeps environment states)) (Value.Same fun _ => True)
      (call host depth) (call host depth) := by
  induction depth with
  | zero =>
      rintro function _ argument _ ⟨_, ⟨⟩⟩ ⟨_, rfl⟩
      cases function with
      | host name => exact related_outside (hosts name argument trivial)
      | lambda scope parameter body => exact Run.related_throw .tooDeep
  | succ depth ih =>
      rintro function _ argument _ ⟨_, ⟨⟩⟩ ⟨_, rfl⟩
      cases function with
      | host name => exact related_outside (hosts name argument trivial)
      | lambda scope parameter body =>
          rw [call]
          refine (related_enter scope parameter argument).bind ?_
          rintro inner _ rfl
          exact related_evalWith ih inner body

theorem related_call (environment : Environment) (depth : Nat) (closure : Closure Value)
    (argument : Value) :
    Related (Keeps environment states) (Value.Same fun _ => True)
      (call host depth closure argument) (call host depth closure argument) :=
  callsAlike_keeps hosts environment depth closure closure argument argument ⟨trivial, rfl⟩
    ⟨trivial, rfl⟩

theorem related_interpret (environment : Environment) (scope : Scope Value) (source : Bytes) :
    Related (Keeps environment states) (Value.Same fun _ => True)
      (interpret host scope source) (interpret host scope source) := by
  rw [interpret]
  cases Program.read source with
  | error failure => exact Run.related_throw failure
  | ok tree =>
      exact related_evalWith (callsAlike_keeps hosts environment Program.maxDepth) scope tree

omit hosts

theorem alike_self (host : Host σ) :
    host.Alike (Run.relatedBy Eq) (fun _ => True) host := by
  rintro name argument _ state _ rfl
  exact ⟨Value.agree_same_refl _, rfl⟩

/-- A program leaves every level that it finds. -/
theorem le_interpret (host : Host σ) (scope : Scope Value) (source : Bytes) (arena : Arena σ) :
    arena.environment ≤ ((interpret host scope source).start arena).2.environment :=
  (related_interpret (alike_self host) arena.environment scope source arena arena
    ⟨le_rfl, rfl, rfl⟩).2.1

end Juxta.Arena
