/-
# Programs

A source text is scanned, parsed and evaluated; the first failure of any stage
is the failure of the program.
-/

import Juxta.Eval.Basic
import Juxta.Token.Scan
import Juxta.Tree.Read

namespace Juxta.Program

variable {σ : Type}

/-- The tree of a source text. -/
def read (source : Bytes) : Except Failure Tree :=
  match Token.scan source with
  | .error error => .error (.lex error)
  | .ok tokens =>
      match Tree.parse tokens with
      | .error error => .error (.parse error)
      | .ok tree => .ok tree

/-- Whether a source text fails only because it stops too early. -/
def needsMore (source : Bytes) : Bool :=
  match read source with
  | .error failure => failure.isIncomplete
  | .ok _ => false

/-- How many calls inside each other a program may make. -/
def maxDepth : Nat := 1000000

/-- The value of a source text in a scope. -/
def interpret (environment : Environment) (host : Host σ) (scope : Scope Value)
    (source : Bytes) : Run σ Value :=
  match read source with
  | .error failure => throw failure
  | .ok tree => tree.eval environment host maxDepth scope

end Juxta.Program
