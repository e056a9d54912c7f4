/-
# Mapping over a dictionary

A map over a dictionary calls its function on the values in the byte order of their
keys. No key is repeated, so there is one such order only, and it is the same for all
dictionaries with the same values, however they came about. The calls are made one
after the other, each on the next value, and the first failure ends them. To speak of
these calls, a map is run a second time with calls that log themselves.
-/

import Juxta.Proofs.Program.Scoping
import Juxta.Proofs.Value.Dict

namespace Juxta

namespace Dict

variable {α : Type} {dict first second : Dict α}

/-- The entries in the byte order of their keys. -/
def sorted (dict : Dict α) : List (Bytes × α) :=
  dict.entries.mergeSort fun first second => first.1 ≤ second.1

theorem sorted_perm (dict : Dict α) : dict.sorted.Perm dict.entries :=
  List.mergeSort_perm ..

theorem pairwise_sorted_le (dict : Dict α) :
    dict.sorted.Pairwise fun entry later => entry.1 ≤ later.1 := by
  apply List.Pairwise.imp of_decide_eq_true
  apply List.pairwise_mergeSort
  · intro entry middle later before after
    rw [decide_eq_true_eq] at before after ⊢
    exact List.le_trans before after
  · intro entry later
    rw [Bool.or_eq_true, decide_eq_true_eq, decide_eq_true_eq]
    exact List.le_total _ _

/-- Without repeated keys the order is strict. -/
theorem pairwise_sorted (distinct : dict.keys.Nodup) :
    dict.sorted.Pairwise fun entry later => entry.1 < later.1 := by
  have apart : dict.sorted.Pairwise fun entry later => entry.1 ≠ later.1 := by
    rw [← List.pairwise_map]
    exact (dict.sorted_perm.map Prod.fst).nodup_iff.mpr distinct
  apply (dict.pairwise_sorted_le.and apart).imp
  rintro entry later ⟨before, other⟩
  exact (List.le_iff_lt_or_eq.mp before).resolve_right other

/-- Dictionaries that repeat no key and have the same values are sorted to one list. -/
theorem sorted_eq_of_get?_eq (distinct : first.keys.Nodup) (distinct' : second.keys.Nodup)
    (same : ∀ key, first.get? key = second.get? key) : first.sorted = second.sorted := by
  have entries : first.entries.Perm second.entries := by
    rw [List.perm_ext_iff_of_nodup (.of_map Prod.fst distinct) (.of_map Prod.fst distinct')]
    rintro ⟨key, value⟩
    rw [← get?_eq_some_iff_mem distinct, ← get?_eq_some_iff_mem distinct', same]
  have permuted : first.sorted.Perm second.sorted :=
    (first.sorted_perm.trans entries).trans second.sorted_perm.symm
  refine permuted.eq_of_pairwise ?_ (pairwise_sorted distinct) (pairwise_sorted distinct')
  intro entry later _ _ before after
  exact absurd after (List.lt_asymm before)

end Dict

variable {σ : Type}

namespace Closure

/-- A call of a function and its outcome. -/
structure Application where
  function : Closure Value
  argument : Value
  outcome : Except Failure Value

/-- Calls that also log themselves, the latest last. -/
def logged (call : Closure Value → Value → Run σ Value) (function : Closure Value)
    (argument : Value) : Run (σ × List Application) Value :=
  ExceptT.mk fun (state, log) =>
    let (outcome, later) := (call function argument).start state
    (outcome, (later, log ++ [⟨function, argument, outcome⟩]))

/-- What is logged when a function is called on values one after the other until the
first failure, and what comes of it. -/
inductive InTurn (function : Closure Value) :
    List Value → List Application → Except Failure (List Value) → Prop
  | done : InTurn function [] [] (.ok [])
  | failed (value : Value) (rest : List Value) (failure : Failure) :
      InTurn function (value :: rest) [⟨function, value, .error failure⟩] (.error failure)
  | next (value result : Value) {rest : List Value} {log : List Application}
      {outcome : Except Failure (List Value)} (later : InTurn function rest log outcome) :
      InTurn function (value :: rest) (⟨function, value, .ok result⟩ :: log)
        (outcome.map (result :: ·))

theorem start_logged (call : Closure Value → Value → Run σ Value) (function : Closure Value)
    (argument : Value) (state : σ) (log : List Application) :
    (logged call function argument).start (state, log) =
      let (outcome, later) := (call function argument).start state
      (outcome, later, log ++ [⟨function, argument, outcome⟩]) :=
  rfl

end Closure

theorem Run.start_map {α β : Type} (change : α → β) (run : Run σ α) (state : σ) :
    (change <$> run).start state = ((run.start state).1.map change, (run.start state).2) := by
  rw [map_eq_pure_bind, start_bind]
  rcases run.start state with ⟨outcome, later⟩
  cases outcome <;> rfl

open Closure (InTurn)

theorem Closure.exists_inTurn_mapM (call : Closure Value → Value → Run σ Value)
    (function : Closure Value) (values : List Value) (state : σ) (before : List Application) :
    ∃ log outcome later, InTurn function values log outcome ∧
      (values.mapM (call function)).start state = (outcome, later) ∧
      (values.mapM (logged call function)).start (state, before) =
        (outcome, later, before ++ log) := by
  induction values generalizing state before with
  | nil => exact ⟨[], .ok [], state, .done, rfl, by rw [List.append_nil]; rfl⟩
  | cons value rest ih =>
      simp only [List.mapM_cons, Run.start_bind, start_logged]
      rcases (call function value).start state with ⟨outcome, middle⟩
      cases outcome with
      | error failure =>
          exact ⟨_, .error failure, middle, .failed value rest failure, rfl, rfl⟩
      | ok result =>
          obtain ⟨log, outcome, later, turns, plain, noted⟩ :=
            ih middle (before ++ [⟨function, value, .ok result⟩])
          refine ⟨_, _, later, .next value result turns, ?_, ?_⟩
          · simp only [plain]
            cases outcome <;> rfl
          · simp only [noted, List.append_assoc]
            cases outcome <;> rfl

namespace Operator

open Value (ClosedSort)

theorem apply_map_dictionary (call : Closure Value → Value → Run σ Value) (dict : Dict Value)
    (function : Closure Value) :
    map.apply call (.dictionary dict) (.closure function) =
      .list <$> (dict.sorted.map Prod.snd).mapM (call function) :=
  rfl

/-- Logging the calls of the host changes nothing else about a map. -/
theorem start_apply_logging (environment : Environment) (host : Host σ) (depth : Nat)
    (operator : Operator) (left right : Value) (state : σ) :
    let plain := (operator.apply (Closure.call environment host depth) left right).start state
    let watched := (operator.apply (Closure.call environment host.logging depth) left right).start
      (state, [])
    (watched.1, watched.2.1) = plain := by
  have calls := (ClosedSort.all environment).callsAlike (Tree.hereditary_all fun _ => trivial)
    trivial host.keeps_all.alike_logging depth
  have ending := (ClosedSort.all environment).likeness.steady.relates_apply calls.steady operator
    (le_refl Run.Always.now) (show Value.Same _ left left from ⟨trivial, rfl⟩)
    (show Value.Same _ right right from ⟨trivial, rfl⟩) state (state, []) ⟨rfl, nofun⟩
  exact Prod.ext (Value.eq_of_agree_same ending.1).symm ending.2.1

/-- A map over dictionaries with the same values, which came about by setting and
merging in whatever way: the two runs end with the same result or the same failure, in
the same state of the host, after the same calls of the host with the same answers.
The function is called on the value of each entry once, in strictly increasing byte
order of the keys, until the first failure. -/
theorem apply_map_in_key_order {first second : Dict Value} (built : first.Built)
    (built' : second.Built) (same : ∀ key, first.get? key = second.get? key)
    (environment : Environment) (host : Host σ) (depth : Nat) (function : Closure Value)
    (state : σ) :
    let call := Closure.call environment host.logging depth
    let mapped (dict : Dict Value) :=
      (map.apply call (.dictionary dict) (.closure function)).start (state, [])
    mapped first = mapped second ∧
      ((mapped first).1, (mapped first).2.1) = (map.apply (Closure.call environment host depth)
        (.dictionary first) (.closure function)).start state ∧
      ∃ (visits : List (Bytes × Value)) (log : List Closure.Application)
        (outcome : Except Failure (List Value)), visits.Perm first.entries ∧
        visits.Pairwise (fun entry later => entry.1 < later.1) ∧
        InTurn function (visits.map Prod.snd) log outcome ∧
        (mapped first).1 = outcome.map .list ∧
        (map.apply (Closure.logged call) (.dictionary first) (.closure function)).start
          ((state, []), []) = ((mapped first).1, (mapped first).2, log) := by
  intro call mapped
  have distinct := built.nodup_keys
  have order := Dict.sorted_eq_of_get?_eq distinct built'.nodup_keys same
  obtain ⟨log, outcome, later, turns, plain, noted⟩ :=
    Closure.exists_inTurn_mapM call function (first.sorted.map Prod.snd) (state, []) []
  have ended : mapped first = (outcome.map .list, later) := by
    simp only [mapped, apply_map_dictionary, Run.start_map, plain]
  refine ⟨?_, start_apply_logging environment host depth map _ _ state, first.sorted, log, outcome,
    first.sorted_perm, Dict.pairwise_sorted distinct, turns, by rw [ended], ?_⟩
  · simp only [mapped, apply_map_dictionary, order]
  · rw [ended, apply_map_dictionary, Run.start_map, noted]
    rfl

/-- Two dictionaries with the same values, the keys in a different order. The host
refuses null, so the value of the last key is not reached. -/
theorem apply_map_in_key_order_refused :
    let host : Host Unit := ⟨fun _ argument =>
      if argument.kind = .null then throw (utf8 "null") else pure argument⟩
    let text : Value := .string (utf8 "1")
    let first := ((Dict.empty.set (utf8 "c") text).set (utf8 "a") text).set (utf8 "b") .null
    let second := ((Dict.empty.set (utf8 "a") .null).set (utf8 "b") .null).merge
      ((Dict.empty.set (utf8 "c") text).set (utf8 "a") text)
    let mapped (dict : Dict Value) :=
      (map.apply (Closure.call .initial host.logging 0) (.dictionary dict)
        (.closure (.host (utf8 "F")))).start ((), [])
    first.Built ∧ second.Built ∧ (∀ key, first.get? key = second.get? key) ∧
      mapped first = mapped second ∧
      mapped second = (.error (.host (utf8 "null")), (),
        [⟨utf8 "F", text, .ok text⟩, ⟨utf8 "F", .null, .error (utf8 "null")⟩]) := by
  intro host text first second mapped
  have built : first.Built := .set (.set (.set .empty _ _) _ _) _ _
  have built' : second.Built :=
    .merge (.set (.set .empty _ _) _ _) (.set (.set .empty _ _) _ _)
  have same : ∀ key, first.get? key = second.get? key := by
    intro key
    apply Option.ext
    intro value
    rw [Dict.get?_eq_some_iff_mem built.nodup_keys, Dict.get?_eq_some_iff_mem built'.nodup_keys]
    have entries : first.entries.Perm second.entries :=
      (List.Perm.swap (utf8 "a", text) (utf8 "c", text) [(utf8 "b", .null)]).trans
        (.cons _ (List.Perm.swap (utf8 "b", .null) (utf8 "c", text) []))
    exact entries.mem_iff
  have sorted : second.sorted = second.entries := by
    apply List.mergeSort_of_pairwise
    decide
  have mapping := apply_map_in_key_order built built' same .initial host 0 (.host (utf8 "F")) ()
  refine ⟨built, built', same, mapping.1, ?_⟩
  simp only [mapped, apply_map_dictionary, sorted]
  rfl

end Operator

end Juxta
