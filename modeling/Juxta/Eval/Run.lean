/-
# Runs

A run computes with the state of the host, such as its output, and may fail.
What the host's functions did before a failure stays done.
-/

import Juxta.Eval.Error
import Juxta.Operator

namespace Juxta

/-- A computation that changes the host's state and gives a result or fails. -/
abbrev Run (σ : Type) := ExceptT Failure (StateM σ)

/-- The functions that the host lends to programs, by name. They change the
host's state and fail with a text of the host's own. -/
structure Host (σ : Type) where
  call : (name : Bytes) → (argument : Value) → ExceptT Bytes (StateM σ) Value

namespace Run

variable {σ α : Type}

/-- Fails with an evaluation error that blames an operator. -/
def blame (operator : Operator) (cause : EvalError.Cause) : Except EvalError α :=
  .error ⟨operator.text, cause⟩

/-- A pure step of evaluation. -/
def ofEval : Except EvalError α → Run σ α
  | .ok result => pure result
  | .error error => throw (.eval error)

/-- A call of the host. -/
def ofHost (call : ExceptT Bytes (StateM σ) α) : Run σ α :=
  ExceptT.mk do
    match ← call.run with
    | .ok result => pure (.ok result)
    | .error text => pure (.error (.host text))

end Run

end Juxta
