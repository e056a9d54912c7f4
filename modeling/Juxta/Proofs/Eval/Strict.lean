/-
# Evaluation is strict

Evaluating a node evaluates all the nodes directly below it, with two exceptions:
the body of a function literal waits for a call, and a word that is a key stands
for itself. Every failure on the way is the failure of the whole. So an operator
that was taken for an operand, wherever it stands outside function bodies, is
never passed over in silence.
-/

import Juxta.Eval.Basic
import Juxta.Proofs.Eval.Related
import Juxta.Proofs.Tree.Parts

namespace Juxta

variable {σ : Type}

namespace Run

variable {α β : Type}

/-- A run gives no result, whatever state it starts in. -/
def Fails (run : Run σ α) : Prop :=
  ∀ state, ∃ failure later, run.start state = (.error failure, later)

theorem fails_throw (failure : Failure) : (throw failure : Run σ α).Fails :=
  fun state => ⟨failure, state, rfl⟩

theorem Fails.bind {run : Run σ α} (fails : run.Fails) (next : α → Run σ β) :
    (run >>= next).Fails := by
  intro state
  obtain ⟨failure, later, ended⟩ := fails state
  exact ⟨failure, later, by rw [start_bind, ended]⟩

theorem fails_bind (run : Run σ α) {next : α → Run σ β} (fails : ∀ result, (next result).Fails) :
    (run >>= next).Fails := by
  intro state
  rw [start_bind]
  rcases run.start state with ⟨outcome, later⟩
  cases outcome with
  | error failure => exact ⟨failure, later, rfl⟩
  | ok result => exact fails result later

theorem Fails.map {run : Run σ α} (fails : run.Fails) (change : α → β) :
    (change <$> run).Fails := by
  rw [map_eq_pure_bind]
  exact fails.bind _

end Run

namespace Tree

variable {look : Scope Value → Bytes → Run σ Value} {call : Closure Value → Value → Run σ Value}
  {scope : Scope Value}

/-- Operands are evaluated before the operator looks at them, unless the right one is
a word, which may be a key. -/
theorem fails_combination {text : Bytes} {left right : Tree}
    (fails : (left.evalWith look call scope).Fails ∨
      (∀ name, right ≠ word name) ∧ (right.evalWith look call scope).Fails) :
    ((combination text left right).evalWith look call scope).Fails := by
  by_cases selects : ∃ name, Operator.ofText? text = some .access ∧ right = word name
  · obtain ⟨name, meaning, rfl⟩ := selects
    simp only [evalWith, meaning]
    rcases fails with first | ⟨notWord, _⟩
    · exact first.bind _
    · exact absurd rfl (notWord name)
  · rw [evalWith]
    · rcases fails with first | ⟨_, second⟩
      · exact first.bind _
      · apply Run.fails_bind
        exact fun _ => second.bind _
    · exact fun name meaning isWord => selects ⟨name, meaning, isWord⟩

theorem fails_application {callee argument : Tree}
    (fails : (callee.evalWith look call scope).Fails ∨
      (argument.evalWith look call scope).Fails) :
    ((application callee argument).evalWith look call scope).Fails := by
  rw [evalWith]
  rcases fails with first | second
  · exact first.bind _
  · apply Run.fails_bind
    exact fun _ => second.bind _

theorem fails_evalList {elements : List Tree} {element : Tree} (mem : element ∈ elements)
    (fails : (element.evalWith look call scope).Fails) :
    (evalList look call scope elements).Fails := by
  induction elements with
  | nil => cases mem
  | cons head elements ih =>
      rw [evalList]
      rcases List.mem_cons.mp mem with rfl | mem
      · exact fails.bind _
      · apply Run.fails_bind
        exact fun _ => (ih mem).bind _

/-- A key that is a word is not evaluated; any other key is, and all values are. -/
theorem fails_evalEntries {entries : List (Tree × Tree)} {entry : Tree × Tree}
    (mem : entry ∈ entries)
    (fails : (∀ name, entry.1 ≠ word name) ∧ (entry.1.evalWith look call scope).Fails ∨
      (entry.2.evalWith look call scope).Fails) (dict : Dict Value) :
    (evalEntries look call scope dict entries).Fails := by
  induction entries generalizing dict with
  | nil => cases mem
  | cons head entries ih =>
      obtain ⟨key, tree⟩ := head
      -- Once the key is known, the value or a later entry fails.
      have setting (later : entry = (key, tree) → (tree.evalWith look call scope).Fails)
          (name : Bytes) :
          (tree.evalWith look call scope >>= fun value =>
            evalEntries look call scope (dict.set name value) entries).Fails := by
        rcases List.mem_cons.mp mem with same | mem
        · exact (later same).bind _
        · apply Run.fails_bind
          exact fun value => ih mem (dict.set name value)
      by_cases isWord : ∃ name, key = word name
      · obtain ⟨name, rfl⟩ := isWord
        rw [evalEntries]
        apply setting
        rintro rfl
        rcases fails with ⟨notWord, _⟩ | second
        · exact absurd rfl (notWord name)
        · exact second
      · rw [evalEntries]
        · by_cases first : entry = (key, tree) ∧ (key.evalWith look call scope).Fails
          · exact first.2.bind _
          · apply Run.fails_bind
            intro value
            cases value with
            | string name =>
                apply setting
                rintro rfl
                rcases fails with ⟨_, fails⟩ | second
                · exact absurd ⟨rfl, fails⟩ first
                · exact second
            | _ => exact Run.fails_throw _
        · exact fun name same => isWord ⟨name, same⟩

/-- A node fails with any part that it evaluates. -/
theorem fails_evalWith_of_part {part tree : Tree} (mem : part ∈ tree.parts)
    (entered : tree.isFunction = false) (notWord : ∀ name, part ≠ word name)
    (fails : (part.evalWith look call scope).Fails) :
    (tree.evalWith look call scope).Fails := by
  cases tree with
  | expression child isEmpty =>
      obtain rfl := List.mem_singleton.mp mem
      rw [evalWith]
      exact fails
  | combination text left right =>
      apply fails_combination
      rcases List.mem_cons.mp mem with rfl | mem
      · exact .inl fails
      · obtain rfl := List.mem_singleton.mp mem
        exact .inr ⟨notWord, fails⟩
  | application callee argument =>
      apply fails_application
      rcases List.mem_cons.mp mem with rfl | mem
      · exact .inl fails
      · obtain rfl := List.mem_singleton.mp mem
        exact .inr fails
  | function parameter body => cases entered
  | list elements =>
      rw [evalWith]
      exact (fails_evalList mem fails).map _
  | dictionary entries =>
      rw [evalWith]
      apply Run.Fails.map
      obtain ⟨entry, inside, rfl | rfl⟩ := mem_parts_dictionary.mp mem
      · exact fails_evalEntries inside (.inl ⟨notWord, fails⟩) _
      · exact fails_evalEntries inside (.inr fails) _
  | word | operator | number | string | null | hole => cases mem

/-- Nothing but the word itself stands in a word. -/
theorem ne_word_of_below {enters : Tree → Bool} {text : Bytes} {pos : Int} {tree : Tree}
    (below : Below enters (operator text pos) tree) (name : Bytes) : tree ≠ word name := by
  rintro rfl
  cases below with
  | under entered mem below => cases mem

theorem fails_evalWith_of_exposed {text : Bytes} {pos : Int} {tree : Tree}
    (exposed : Exposed (operator text pos) tree) :
    (tree.evalWith look call scope).Fails := by
  induction exposed with
  | here =>
      rw [evalWith]
      exact Run.fails_throw _
  | under entered mem below ih =>
      exact fails_evalWith_of_part mem (by simpa using entered) (ne_word_of_below below) ih

/-- A tree with an operator leaf outside its function bodies has no value: in every
environment, with every host and however deep calls may be nested, its evaluation
fails. -/
theorem eval_of_exposed_operator {text : Bytes} {pos : Int} {tree : Tree}
    (exposed : Exposed (operator text pos) tree) (environment : Environment) (host : Host σ)
    (depth : Nat) (scope : Scope Value) (state : σ) :
    ∃ failure later, (tree.eval environment host depth scope).start state =
      (.error failure, later) :=
  fails_evalWith_of_exposed exposed state

/-- The tree of `{k: [f (1 + ~)]}`, where the right operand is an operator. -/
def operatorInArgument : Tree :=
  let argument := wrap (combination (utf8 "+") (number (Fraction.ofInt 1)) (operator (utf8 "~") 12))
  wrap (dictionary [(word (utf8 "k"),
    wrap (list [wrap (application (word (utf8 "f")) argument)]))])

theorem eval_operatorInArgument :
    Exposed (operator (utf8 "~") 12) operatorInArgument ∧
      ∃ failure later, (operatorInArgument.eval .initial ⟨fun _ argument => pure argument⟩ 3
        (.atLevel 0)).start () = (.error failure, later) := by
  have exposed : Exposed (operator (utf8 "~") 12) operatorInArgument := by
    apply Below.under rfl List.mem_cons_self
    apply Below.under rfl (List.mem_cons_of_mem _ List.mem_cons_self)
    apply Below.under rfl List.mem_cons_self
    apply Below.under rfl List.mem_cons_self
    apply Below.under rfl List.mem_cons_self
    apply Below.under rfl (List.mem_cons_of_mem _ List.mem_cons_self)
    apply Below.under rfl List.mem_cons_self
    exact Below.under rfl (List.mem_cons_of_mem _ List.mem_cons_self) .here
  exact ⟨exposed, eval_of_exposed_operator exposed _ _ _ _ _⟩

end Tree

end Juxta
