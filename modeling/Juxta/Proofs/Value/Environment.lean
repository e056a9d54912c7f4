/-
# Levels by their numbers

A level is found by its number, which does not change when other levels are added or
redefined. So an environment is at most as rich as another if each of its levels is
there under the same number. Looking a name up at a level means to look at the bindings
of that level first and then at the level around it.
-/

import Juxta.Value.Environment
import Mathlib.Order.Basic

namespace Juxta.Environment

variable {environment later : Environment} {number outer : Nat} {level : Level}

/-- The level of a number. -/
def level? (environment : Environment) (number : Nat) : Option Level :=
  environment.levels.reverse[number]?

theorem level?_cons (newest : Level) (older : List Level) (number : Nat) :
    level? ⟨newest :: older⟩ number =
      if number = older.length then some newest else level? ⟨older⟩ number := by
  simp only [level?, List.reverse_cons]
  split
  case isTrue here => rw [here, ← List.length_reverse, List.getElem?_concat_length]
  case isFalse elsewhere =>
    rcases Nat.lt_or_gt_of_ne elsewhere with lt | gt
    · rw [List.getElem?_append_left (by rwa [List.length_reverse])]
    · rw [List.getElem?_eq_none (by simp; omega), List.getElem?_eq_none (by simp; omega)]

theorem lt_size_of_level? (found : environment.level? number = some level) :
    number < environment.size := by
  obtain ⟨bound, -⟩ := List.getElem?_eq_some_iff.mp found
  rwa [List.length_reverse] at bound

theorem exists_level? (inside : number < environment.size) :
    ∃ level, environment.level? number = some level :=
  ⟨_, List.getElem?_eq_getElem (by rwa [List.length_reverse])⟩

/-- Each level of the first environment is a level of the second, under its number. -/
instance : Preorder Environment where
  le first second :=
    ∀ number level, first.level? number = some level → second.level? number = some level
  le_refl _ _ _ found := found
  le_trans _ _ _ first second number level found := second number level (first number level found)

theorem level?_nest (environment : Environment) (outer : Nat) (bindings : Dict Value)
    (number : Nat) : (environment.nest outer bindings).level? number =
      if number = environment.size then some ⟨bindings, some outer⟩
      else environment.level? number :=
  level?_cons _ _ _

theorem le_nest (environment : Environment) (outer : Nat) (bindings : Dict Value) :
    environment ≤ environment.nest outer bindings := by
  intro number level found
  rwa [level?_nest, if_neg (Nat.ne_of_lt (lt_size_of_level? found))]

theorem size_nest (environment : Environment) (outer : Nat) (bindings : Dict Value) :
    (environment.nest outer bindings).size = environment.size + 1 :=
  rfl

theorem length_redefine (levels : List Level) (number : Nat) (name : Bytes) (value : Value) :
    (redefine levels number name value).length = levels.length := by
  induction levels with
  | nil => rfl
  | cons newest older ih =>
      rw [redefine]
      split
      · rfl
      · rw [List.length_cons, List.length_cons, ih]

theorem size_define (environment : Environment) (number : Nat) (name : Bytes) (value : Value) :
    (environment.define number name value).size = environment.size :=
  length_redefine _ _ _ _

/-- A definition changes the bindings of one level. -/
theorem level?_define (environment : Environment) (defined : Nat) (name : Bytes) (value : Value)
    (number : Nat) : (environment.define defined name value).level? number =
      if number = defined then (environment.level? number).map fun level =>
        { level with bindings := level.bindings.set name value }
      else environment.level? number := by
  obtain ⟨levels⟩ := environment
  rw [define]
  induction levels with
  | nil => split <;> rfl
  | cons newest older ih =>
      rw [redefine]
      by_cases here : defined = older.length
      · rw [if_pos here, level?_cons, level?_cons, ← here]
        split <;> rfl
      · rw [if_neg here, level?_cons, level?_cons, length_redefine, ih]
        by_cases newestOne : number = older.length
        · rw [if_pos newestOne, if_pos newestOne, if_neg (newestOne ▸ Ne.symm here)]
        · rw [if_neg newestOne, if_neg newestOne]

/-- A name at a level that lies inside an older one. -/
theorem get?_of_level? (found : environment.level? number = some level)
    (inside : ∀ outer ∈ level.outer, outer < number) (name : Bytes) :
    environment.get? number name =
      match level.bindings.get? name with
      | some value => some value
      | none => level.outer.bind fun outer => environment.get? outer name := by
  obtain ⟨levels⟩ := environment
  simp only [get?]
  induction levels with
  | nil => cases found
  | cons newest older ih =>
      rw [level?_cons] at found
      -- Levels around an older one are older still, so the newest level is none of them.
      have skip {outer : Nat} (lt : outer < older.length) :
          lookup (newest :: older) outer name = lookup older outer name := by
        rw [lookup, if_neg (Nat.ne_of_lt lt)]
      by_cases here : number = older.length
      · rw [if_pos here] at found
        obtain rfl := Option.some.inj found
        rw [lookup, if_pos here]
        cases newest.bindings.get? name with
        | some value => rfl
        | none =>
            cases around : newest.outer with
            | none => rfl
            | some outer => exact (skip (here ▸ inside outer around)).symm
      · rw [if_neg here] at found
        have bound : number < older.length := lt_size_of_level? found
        rw [skip bound, ih found]
        cases level.bindings.get? name with
        | some value => rfl
        | none =>
            cases around : level.outer with
            | none => rfl
            | some outer => exact (skip (Nat.lt_trans (inside outer around) bound)).symm

end Juxta.Environment
