/-
# Evaluation in an arena

A function can also capture a level of the environment and nothing else. A call
then adds a level that binds the argument, inside the level of the function, and
evaluates the body there. All levels lie in one arena, which a run finds, changes
and leaves behind, also where it fails. Nothing in the form of such runs keeps
them from changing a level that was there before.
-/

import Juxta.Program

namespace Juxta

/-- What a run in an arena finds and leaves: all levels, and the state of the host. -/
structure Arena (σ : Type) where
  environment : Environment
  state : σ

namespace Arena

variable {σ : Type}

/-- The value of a word at the levels that are there now, or null where there is none. -/
def look (scope : Scope Value) (name : Bytes) : Run (Arena σ) Value := do
  let arena ← get
  return (arena.environment.get? scope.level name).getD .null

/-- The scope inside a call: a new level that binds the argument to the parameter, if
there is one. -/
def enter (scope : Scope Value) (parameter : Option Bytes) (argument : Value) :
    Run (Arena σ) (Scope Value) :=
  match parameter with
  | none => return scope
  | some name => do
      let arena ← get
      let bindings := Dict.empty.set name argument
      set { arena with environment := arena.environment.nest scope.level bindings }
      return Scope.atLevel arena.environment.size

/-- A run outside the arena, such as a call of the host. -/
def outside {α : Type} (run : Run σ α) : Run (Arena σ) α :=
  ExceptT.mk fun arena =>
    let (outcome, later) := run.run.run arena.state
    (outcome, { arena with state := later })

/-- Calls a function with an argument, with at most `depth` calls inside each
other. -/
def call (host : Host σ) : (depth : Nat) → Closure Value → Value → Run (Arena σ) Value
  | _, .host name, argument => outside (Run.ofHost (host.call name argument))
  | 0, .lambda _ _ _, _ => throw .tooDeep
  | depth + 1, .lambda scope parameter body, argument => do
      let inner ← enter scope parameter argument
      body.evalWith look (call host depth) inner

/-- The value of a tree in a scope, with at most `depth` calls inside each other. -/
def eval (host : Host σ) (depth : Nat) (scope : Scope Value) (tree : Tree) :
    Run (Arena σ) Value :=
  tree.evalWith look (call host depth) scope

/-- The value of a source text in a scope. -/
def interpret (host : Host σ) (scope : Scope Value) (source : Bytes) : Run (Arena σ) Value :=
  match Program.read source with
  | .error failure => throw failure
  | .ok tree => eval host Program.maxDepth scope tree

end Arena

end Juxta
