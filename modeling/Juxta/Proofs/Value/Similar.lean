/-
# Values seen from two scopes

A function that a program makes in one scope is a different value from the one it
makes in another, even if the two can never be told apart. Values are similar
when they have the same numbers, strings and shape, and when their functions have
the same parameter and body and every word of the body stands for similar values
in the two scopes that the functions captured. Similar values have the same dump,
and similarity is a likeness, so evaluation respects it.
-/

import Juxta.Proofs.Eval.Alike
import Juxta.Proofs.Value.Dump

namespace Juxta

namespace Tree

mutual

/-- The words that occur in a tree, those in the bodies of functions included. -/
def words : Tree → List Bytes
  | expression child _ => child.words
  | combination _ left right => left.words ++ right.words
  | application callee argument => callee.words ++ argument.words
  | function _ body => body.words
  | list elements => wordsOfElements elements
  | dictionary entries => wordsOfEntries entries
  | word name => [name]
  | operator _ _ | number _ | string _ _ | null | hole => []

/-- The words that occur in several trees. -/
def wordsOfElements : List Tree → List Bytes
  | [] => []
  | tree :: rest => tree.words ++ wordsOfElements rest

/-- The words that occur in the keys and values of a dictionary literal. -/
def wordsOfEntries : List (Tree × Tree) → List Bytes
  | [] => []
  | (key, tree) :: rest => key.words ++ tree.words ++ wordsOfEntries rest

end

theorem mem_wordsOfElements {name : Bytes} {elements : List Tree} :
    name ∈ wordsOfElements elements ↔ ∃ element ∈ elements, name ∈ element.words := by
  induction elements with
  | nil => simp [wordsOfElements]
  | cons element rest ih => simp [wordsOfElements, ih]

theorem mem_wordsOfEntries {name : Bytes} {entries : List (Tree × Tree)} :
    name ∈ wordsOfEntries entries ↔
      ∃ entry ∈ entries, name ∈ entry.1.words ∨ name ∈ entry.2.words := by
  induction entries with
  | nil => simp [wordsOfEntries]
  | cons entry rest ih => simp [wordsOfEntries, ih, or_assoc]

/-- The trees whose words are all of a sort hold their parts. -/
theorem hereditary_words (names : Bytes → Prop) {permits : Failure → Prop}
    (all : ∀ failure, permits failure) :
    Hereditary (fun _ => True) permits (fun tree => ∀ name ∈ tree.words, names name) where
  expression each := each
  combination each := by simpa only [words, List.forall_mem_append] using each
  application each := by simpa only [words, List.forall_mem_append] using each
  function each := each
  list each element mem name occurs := each name (mem_wordsOfElements.mpr ⟨element, mem, occurs⟩)
  dictionary each entry mem :=
    ⟨fun name occurs => each name (mem_wordsOfEntries.mpr ⟨entry, mem, .inl occurs⟩),
      fun name occurs => each name (mem_wordsOfEntries.mpr ⟨entry, mem, .inr occurs⟩)⟩
  number _ := trivial
  unknownOperator _ _ := all _
  hole _ := all _

end Tree

namespace Value

/-- Values that differ at most in the scopes which their functions captured, and
there only in what the words of the body cannot show. -/
inductive Similar (environment : Environment) : Value → Value → Prop
  | same (value : Value) : Similar environment value value
  | list {items items' : List Value} (lengths : items.length = items'.length)
      (each : ∀ pair ∈ items.zip items', Similar environment pair.1 pair.2) :
      Similar environment (list items) (list items')
  | dictionary {dict dict' : Dict Value} (lengths : dict.entries.length = dict'.entries.length)
      (keys : ∀ pair ∈ dict.entries.zip dict'.entries, pair.1.1 = pair.2.1)
      (each : ∀ pair ∈ dict.entries.zip dict'.entries, Similar environment pair.1.2 pair.2.2) :
      Similar environment (dictionary dict) (dictionary dict')
  | lambda {scope scope' : Scope Value} (parameter : Option Bytes) {body : Tree}
      (words : ∀ name ∈ body.words, Similar environment
        ((environment.resolve? scope name).getD null)
        ((environment.resolve? scope' name).getD null)) :
      Similar environment (closure (.lambda scope parameter body))
        (closure (.lambda scope' parameter body))

variable {environment : Environment}

theorem likeness_similar (environment : Environment) :
    Likeness (fun _ => True) (Similar environment) := by
  apply Likeness.ofItems (fun _ => .same _) (fun _ => .same _) (.same _) .list .dictionary
  intro first second similar
  cases similar with
  | same => exact Layer.refl .same first
  | list lengths each =>
      exact .list (List.forall₂_iff_zip.mpr ⟨lengths, fun mem => each _ mem⟩)
  | dictionary lengths keys each =>
      refine .dictionary (List.forall₂_iff_zip.mpr ⟨lengths, fun mem => ?_⟩)
      exact ⟨keys _ mem, each _ mem⟩
  | lambda parameter words => exact .closure (.lambda parameter words)

/-- Similar values have the same dump. -/
theorem Similar.dump_eq {first second : Value} (similar : Similar environment first second) :
    first.dump = second.dump := by
  apply (likeness_similar environment).dump_eq _ similar
  intro function function' functions
  cases functions with
  | same => rfl
  | lambda parameter words => rfl

end Value

/-- The words of a tree stand for similar values in two scopes. -/
def Tree.WordsSimilar (environment : Environment) (scope scope' : Scope Value) (tree : Tree) :
    Prop :=
  ∀ name ∈ tree.words, Value.Similar environment ((environment.resolve? scope name).getD .null)
    ((environment.resolve? scope' name).getD .null)

/-- Similar functions are one function of the host, or have one body whose words
are similar in the scopes that they captured. -/
theorem Value.Similar.closure_cases {environment : Environment}
    {function function' : Closure Value}
    (similar : Similar environment (closure function) (closure function')) :
    (∃ name, function = .host name ∧ function' = .host name) ∨
      ∃ scope scope' parameter body, function = .lambda scope parameter body ∧
        function' = .lambda scope' parameter body ∧
        body.WordsSimilar environment scope scope' := by
  cases similar with
  | same =>
      cases function with
      | host name => exact .inl ⟨name, rfl, rfl⟩
      | lambda scope parameter body =>
          exact .inr ⟨scope, scope, parameter, body, rfl, rfl, fun _ _ => .same _⟩
  | lambda parameter words => exact .inr ⟨_, _, parameter, _, rfl, rfl, words⟩

namespace Tree

variable {environment : Environment} {scope scope' : Scope Value}

/-- Inside a call the words of the body are similar: a word is the parameter, and
stands for the arguments, or is looked up further out. -/
theorem WordsSimilar.bind {body : Tree} (words : body.WordsSimilar environment scope scope')
    (parameter : Option Bytes) {argument argument' : Value}
    (arguments : argument.Similar environment argument') :
    body.WordsSimilar environment (scope.bind parameter argument)
      (scope'.bind parameter argument') := by
  cases parameter with
  | none => exact words
  | some bound =>
      intro name occurs
      have further := words name occurs
      simp only [Scope.bind, Environment.resolve?, List.lookup_cons] at further ⊢
      by_cases isBound : name == bound
      · simp only [isBound]
        exact arguments
      · simp only [isBound]
        exact further

/-- Scopes in which the words of some tree are similar look alike to its parts. -/
theorem scopesAlike_wordsSimilar (environment : Environment) (scope scope' : Scope Value) :
    ScopesAlike (WordsSimilar environment scope scope') (Value.Similar environment) environment
      environment scope scope' where
  words name similar := similar name (List.mem_singleton.mpr rfl)
  functions parameter _ similar := .lambda parameter similar

end Tree

end Juxta
