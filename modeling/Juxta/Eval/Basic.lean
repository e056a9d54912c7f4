/-
# Evaluation

A tree is evaluated in a scope, by recursion on the tree. How words are looked up
and what calling a function does are arguments of that recursion; a call evaluates
a body in the scope of the function, with one call fewer to spend. Operands are
evaluated from left to right before an operator looks at their kinds.
-/

import Juxta.Eval.Operation
import Juxta.Value.Environment

namespace Juxta

variable {σ : Type}

mutual

/-- The value of a tree in a scope. `look` says what a word stands for in a scope, and
`call` what calling a function does. -/
def Tree.evalWith (look : Scope Value → Bytes → Run σ Value)
    (call : Closure Value → Value → Run σ Value) (scope : Scope Value) : Tree → Run σ Value
  | .expression child _ => child.evalWith look call scope
  | .combination text left right =>
      match Operator.ofText? text, right with
      | some .access, .word name => do
          let value ← left.evalWith look call scope
          Run.ofEval (value.select (.key name))
      | meaning?, right => do
          let a ← left.evalWith look call scope
          let b ← right.evalWith look call scope
          match meaning? with
          | some meaning => meaning.apply call a b
          | none => throw (.eval ⟨text, .unknownOperator⟩)
  | .application callee argument => do
      let value ← callee.evalWith look call scope
      let operand ← argument.evalWith look call scope
      match value with
      | .closure closure => call closure operand
      | other => throw (.eval ⟨[], .notFunction other.kind⟩)
  | .function parameter body => pure (.closure (.lambda scope parameter body))
  | .list elements => .list <$> Tree.evalList look call scope elements
  | .dictionary entries =>
      .dictionary <$> Tree.evalEntries look call scope Dict.empty entries
  | .word name => look scope name
  | .operator text _ => throw (.eval ⟨text, .operatorAsValue⟩)
  | .number value => pure (.number value)
  | .string _ value => pure (.string value)
  | .null => pure .null
  | .hole => throw (.eval ⟨[], .unknownNode⟩)

/-- The values of several trees, from left to right. -/
def Tree.evalList (look : Scope Value → Bytes → Run σ Value)
    (call : Closure Value → Value → Run σ Value) (scope : Scope Value) :
    List Tree → Run σ (List Value)
  | [] => pure []
  | tree :: rest => do
      let value ← tree.evalWith look call scope
      let values ← Tree.evalList look call scope rest
      pure (value :: values)

/-- Sets the entries of a dictionary literal, from left to right. A word is its
own key; any other key must be a string. -/
def Tree.evalEntries (look : Scope Value → Bytes → Run σ Value)
    (call : Closure Value → Value → Run σ Value) (scope : Scope Value) (dict : Dict Value) :
    List (Tree × Tree) → Run σ (Dict Value)
  | [] => pure dict
  | (.word name, tree) :: rest => do
      let value ← tree.evalWith look call scope
      Tree.evalEntries look call scope (dict.set name value) rest
  | (key, tree) :: rest => do
      match ← key.evalWith look call scope with
      | .string name =>
          let value ← tree.evalWith look call scope
          Tree.evalEntries look call scope (dict.set name value) rest
      | other => throw (.eval ⟨[], .keyNotString other.kind⟩)

end

/-- The value of a word in a scope, or null where there is none. -/
def Environment.look (environment : Environment) (scope : Scope Value) (name : Bytes) :
    Run σ Value :=
  pure ((environment.resolve? scope name).getD .null)

/-- Calls a function with an argument, with at most `depth` calls inside each
other. -/
def Closure.call (environment : Environment) (host : Host σ) :
    (depth : Nat) → Closure Value → Value → Run σ Value
  | _, .host name, argument => Run.ofHost (host.call name argument)
  | 0, .lambda _ _ _, _ => throw .tooDeep
  | depth + 1, .lambda scope parameter body, argument =>
      body.evalWith environment.look (Closure.call environment host depth)
        (scope.bind parameter argument)

/-- The value of a tree in a scope, with at most `depth` calls inside each other. -/
def Tree.eval (environment : Environment) (host : Host σ) (depth : Nat) (scope : Scope Value)
    (tree : Tree) : Run σ Value :=
  tree.evalWith environment.look (Closure.call environment host depth) scope

end Juxta
