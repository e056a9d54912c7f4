/-
# Sorts of values

Evaluation stays inside a sort of values that is closed under taking values
apart and putting them together, where a function belongs to the sort when its
body is of a sort of trees and everything that it holds on to belongs to the sort
as well. If two hosts answer arguments of the sort alike, then a program that
runs with the one and with the other does the same, and all its values are of
the sort.
-/

import Juxta.Proofs.Eval.Alike

namespace Juxta

open Run (Relation)

namespace Environment

/-- Every value bound at a numbered level or at a level around it. -/
def boundAt : List Level → (level : Nat) → List Value
  | [], _ => []
  | newest :: older, level =>
      if level = older.length then
        newest.bindings.entries.map Prod.snd ++
          match newest.outer with
          | some outer => boundAt older outer
          | none => []
      else boundAt older level

/-- Every value that a scope holds on to, those hidden by an inner binding included. -/
def captured (environment : Environment) (scope : Scope Value) : List Value :=
  scope.locals.map Prod.snd ++ boundAt environment.levels scope.level

theorem mem_map_snd_of_lookup {entries : List (Bytes × Value)} {name : Bytes} {value : Value}
    (found : entries.lookup name = some value) : value ∈ entries.map Prod.snd := by
  obtain ⟨before, after, rfl, _⟩ := List.lookup_eq_some_iff.mp found
  simp

theorem mem_boundAt_of_lookup {levels : List Level} {level : Nat} {name : Bytes} {value : Value}
    (found : lookup levels level name = some value) : value ∈ boundAt levels level := by
  induction levels generalizing level with
  | nil => cases found
  | cons newest older ih =>
      rw [lookup] at found
      rw [boundAt]
      by_cases here : level = older.length
      · rw [if_pos here] at found ⊢
        rw [List.mem_append]
        cases bound : newest.bindings.get? name with
        | some value' =>
            rw [bound] at found
            cases found
            exact .inl (mem_map_snd_of_lookup bound)
        | none =>
            rw [bound] at found
            cases outer : newest.outer with
            | none => simp [outer] at found
            | some outside =>
                rw [outer] at found
                exact .inr (ih found)
      · rw [if_neg here] at found ⊢
        exact ih found

theorem mem_captured_of_resolve? {environment : Environment} {scope : Scope Value} {name : Bytes}
    {value : Value} (found : environment.resolve? scope name = some value) :
    value ∈ environment.captured scope := by
  rw [captured, List.mem_append]
  rw [resolve?] at found
  cases local? : scope.locals.lookup name with
  | some value' =>
      rw [local?] at found
      cases found
      exact .inl (mem_map_snd_of_lookup local?)
  | none =>
      rw [local?] at found
      exact .inr (mem_boundAt_of_lookup found)

theorem mem_captured_bind {environment : Environment} {scope : Scope Value}
    {parameter : Option Bytes} {argument value : Value}
    (mem : value ∈ environment.captured (scope.bind parameter argument)) :
    value = argument ∨ value ∈ environment.captured scope := by
  cases parameter with
  | none => exact .inr mem
  | some name =>
      have added : environment.captured (scope.bind (some name) argument) =
          argument :: environment.captured scope := rfl
      rwa [added, List.mem_cons] at mem

end Environment

namespace Value

/-- A value of a sort, twice. -/
def Same (values : Value → Prop) (first second : Value) : Prop := values first ∧ first = second

/-- A sort of values that evaluation in an environment does not leave. -/
structure ClosedSort (environment : Environment) (numbers : Fraction → Prop)
    (trees : Tree → Prop) (values : Value → Prop) : Prop where
  number : ∀ {value}, values (number value) ↔ numbers value
  string : ∀ {bytes}, values (string bytes)
  null : values null
  list : ∀ {items}, values (list items) ↔ ∀ item ∈ items, values item
  dictionary : ∀ {dict}, values (dictionary dict) ↔ ∀ entry ∈ dict.entries, values entry.2
  lambda : ∀ {scope parameter body}, values (closure (.lambda scope parameter body)) ↔
    trees body ∧ ∀ held ∈ environment.captured scope, values held
  ofInt : ∀ value, numbers (Fraction.ofInt value)
  operate : ∀ operation {first second}, numbers first → numbers second →
    numbers (Fraction.operate operation first second)

variable {values : Value → Prop}

theorem eq_of_agree_same {ε : Type} {permits : ε → Prop} {outcome outcome' : Except ε Value}
    (agree : Run.Agree permits (Same values) outcome outcome') : outcome = outcome' := by
  cases agree with
  | ok same => rw [same.2]
  | error permitted => rfl

theorem agree_same_refl {ε : Type} (outcome : Except ε Value) :
    Run.Agree (fun _ => True) (Same fun _ => True) outcome outcome := by
  cases outcome with
  | ok value => exact .ok ⟨trivial, rfl⟩
  | error failure => exact .error trivial

theorem forall₂_same_iff {first second : List Value} :
    List.Forall₂ (Same values) first second ↔ (∀ item ∈ first, values item) ∧ first = second := by
  have relation : Same values = fun first second => values first ∧ first = second := rfl
  rw [relation, List.forall₂_and_left, List.forall₂_eq_eq_eq]

theorem entriesAlike_same_iff {first second : Bytes × Value} :
    Dict.EntriesAlike (Same values) first second ↔ values first.2 ∧ first = second := by
  obtain ⟨key, value⟩ := first
  obtain ⟨key', value'⟩ := second
  simp only [Dict.EntriesAlike, Same, Prod.mk.injEq]
  tauto

theorem dictAlike_same_iff {first second : Dict Value} :
    first.Alike (Same values) second ↔
      (∀ entry ∈ first.entries, values entry.2) ∧ first = second := by
  obtain ⟨entries⟩ := first
  obtain ⟨entries'⟩ := second
  have relation : Dict.EntriesAlike (Same values) =
      fun first second => values first.2 ∧ first = second := by
    funext first second
    exact propext entriesAlike_same_iff
  rw [Dict.Alike, relation, List.forall₂_and_left, List.forall₂_eq_eq_eq, Dict.mk.injEq]

namespace ClosedSort

variable {environment : Environment} {numbers : Fraction → Prop} {trees : Tree → Prop}

theorem likeness (sort : ClosedSort environment numbers trees values) :
    Likeness numbers (Same values) where
  layer := by
    rintro value _ ⟨member, rfl⟩
    cases value with
    | number value => exact .number (sort.number.mp member)
    | string bytes => exact .string bytes
    | null => exact .null
    | list items => exact .list (forall₂_same_iff.mpr ⟨sort.list.mp member, rfl⟩)
    | dictionary dict =>
        exact .dictionary (dictAlike_same_iff.mpr ⟨sort.dictionary.mp member, rfl⟩)
    | closure function => exact .closure ⟨member, rfl⟩
    | foreign => exact .foreign ⟨member, rfl⟩
    | nothing => exact .nothing ⟨member, rfl⟩
  ofLayer := by
    intro first second layer
    cases layer with
    | number member => exact ⟨sort.number.mpr member, rfl⟩
    | string bytes => exact ⟨sort.string, rfl⟩
    | null => exact ⟨sort.null, rfl⟩
    | list related =>
        obtain ⟨members, rfl⟩ := forall₂_same_iff.mp related
        exact ⟨sort.list.mpr members, rfl⟩
    | dictionary related =>
        obtain ⟨members, rfl⟩ := dictAlike_same_iff.mp related
        exact ⟨sort.dictionary.mpr members, rfl⟩
    | closure related | foreign related | nothing related => exact related
  ofInt := sort.ofInt
  operate := sort.operate

/-- In a scope that holds only values of the sort, every word and every function
literal is of the sort. -/
theorem scopesAlike (sort : ClosedSort environment numbers trees values) {scope : Scope Value}
    (captured : ∀ held ∈ environment.captured scope, values held) :
    Tree.ScopesAlike trees (Same values) environment environment scope scope where
  words name _ := by
    cases found : environment.resolve? scope name with
    | some value => exact ⟨captured value (Environment.mem_captured_of_resolve? found), rfl⟩
    | none => exact ⟨sort.null, rfl⟩
  functions parameter body written := ⟨sort.lambda.mpr ⟨written, captured⟩, rfl⟩

end ClosedSort

end Value

/-- Two hosts answer arguments of a sort alike, with values of the sort. -/
def Host.Alike {σ τ : Type} (relation : Relation σ τ) (values : Value → Prop) (host : Host σ)
    (host' : Host τ) : Prop :=
  ∀ name argument, values argument → relation.relates (Value.Same values)
    (Run.ofHost (host.call name argument)) (Run.ofHost (host'.call name argument))

namespace Value.ClosedSort

variable {σ τ : Type} {relation : Relation σ τ} {environment : Environment}
  {numbers : Fraction → Prop} {trees : Tree → Prop} {values : Value → Prop}
  {host : Host σ} {host' : Host τ}

/-- Calls of every depth with hosts that answer alike are alike. -/
theorem callsAlike (sort : ClosedSort environment numbers trees values)
    (hereditary : Tree.Hereditary numbers relation.permits trees)
    (cutOff : relation.permits .tooDeep) (hosts : host.Alike relation values host')
    (depth : Nat) :
    CallsAlike relation (Same values) (Closure.call environment host depth)
      (Closure.call environment host' depth) := by
  induction depth with
  | zero =>
      rintro function _ argument _ ⟨_, ⟨⟩⟩ ⟨member, rfl⟩
      cases function with
      | host name => exact hosts name argument member
      | lambda scope parameter body => exact relation.ofThrow cutOff
  | succ depth ih =>
      rintro function _ argument _ ⟨callee, ⟨⟩⟩ ⟨member, rfl⟩
      cases function with
      | host name => exact hosts name argument member
      | lambda scope parameter body =>
          obtain ⟨written, captured⟩ := sort.lambda.mp callee
          rw [Closure.call, Closure.call]
          refine Tree.relates_evalWith sort.likeness hereditary ih (sort.scopesAlike ?_) body
            written
          intro held mem
          rcases Environment.mem_captured_bind mem with rfl | older
          · exact member
          · exact captured held older

/-- A tree evaluated with two hosts that answer alike. -/
theorem relates_eval (sort : ClosedSort environment numbers trees values)
    (hereditary : Tree.Hereditary numbers relation.permits trees)
    (cutOff : relation.permits .tooDeep) (hosts : host.Alike relation values host')
    (depth : Nat) {scope : Scope Value}
    (captured : ∀ held ∈ environment.captured scope, values held) {tree : Tree}
    (written : trees tree) :
    relation.relates (Same values) (tree.eval environment host depth scope)
      (tree.eval environment host' depth scope) :=
  Tree.relates_evalWith sort.likeness hereditary (sort.callsAlike hereditary cutOff hosts depth)
    (sort.scopesAlike captured) tree written

/-- All values are a closed sort. -/
theorem all (environment : Environment) :
    ClosedSort environment (fun _ => True) (fun _ => True) (fun _ => True) where
  number := Iff.rfl
  string := trivial
  null := trivial
  list := by simp
  dictionary := by simp
  lambda := by simp
  ofInt _ := trivial
  operate _ _ _ _ _ := trivial

end Value.ClosedSort

end Juxta
