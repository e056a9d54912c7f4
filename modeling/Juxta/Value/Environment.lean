/-
# Environments

The host keeps its definitions at levels. Each level but the first lies inside
an older one, and a level can be redefined at any time; closures refer to levels
by number, so they see later definitions. Evaluation only looks names up.
-/

import Juxta.Value.Basic

namespace Juxta

/-- The definitions of one level and the older level around it. -/
structure Level where
  bindings : Dict Value
  outer : Option Nat
  deriving Inhabited

/-- All levels, the newest first. A level is numbered by how many are older. -/
structure Environment where
  levels : List Level
  deriving Inhabited

namespace Environment

/-- Looks a name up at a numbered level and then at the levels around it. -/
def lookup : List Level → (level : Nat) → (name : Bytes) → Option Value
  | [], _, _ => none
  | newest :: older, level, name =>
      if level = older.length then
        match newest.bindings.get? name with
        | some value => some value
        | none =>
            match newest.outer with
            | some outer => lookup older outer name
            | none => none
      else lookup older level name

/-- Redefines a name at a numbered level. -/
def redefine : List Level → (level : Nat) → (name : Bytes) → Value → List Level
  | [], _, _, _ => []
  | newest :: older, level, name, value =>
      if level = older.length then
        { newest with bindings := newest.bindings.set name value } :: older
      else newest :: redefine older level name value

/-- The environment of one empty level. -/
def initial : Environment := ⟨[⟨Dict.empty, none⟩]⟩

/-- The value of a name at a level. -/
def get? (environment : Environment) (level : Nat) (name : Bytes) : Option Value :=
  lookup environment.levels level name

/-- Defines a name at a level. -/
def define (environment : Environment) (level : Nat) (name : Bytes) (value : Value) :
    Environment :=
  ⟨redefine environment.levels level name value⟩

/-- Adds a level inside another. Its number is the number of levels before. -/
def nest (environment : Environment) (outer : Nat) (bindings : Dict Value) : Environment :=
  ⟨⟨bindings, some outer⟩ :: environment.levels⟩

/-- The number of levels. -/
def size (environment : Environment) : Nat := environment.levels.length

/-- The value of a word in a scope. -/
def resolve? (environment : Environment) (scope : Scope Value) (name : Bytes) : Option Value :=
  match scope.locals.lookup name with
  | some value => some value
  | none => environment.get? scope.level name

end Environment

/-- The scope of a level outside all calls. -/
def Scope.atLevel (level : Nat) : Scope Value := ⟨[], level⟩

end Juxta
