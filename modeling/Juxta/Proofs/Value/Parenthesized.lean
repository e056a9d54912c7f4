/-
# Added parentheses

Parentheses may be added around any node of a tree, in any number. A word that
selects by its name or is the key of an entry is the exception: in parentheses it
would be looked up. A function carries its body away, so the values of a tree and of
the tree with added parentheses are not the same; they have the same numbers,
strings and shape, and parentheses are added inside their functions only, in the
bodies and in the values that the functions hold on to. Such values have the same
dump, and the relation between them is a likeness.
-/

import Juxta.Proofs.Eval.Sort
import Juxta.Proofs.Value.Dump

namespace Juxta

namespace Tree

/-- The second tree is the first one with parentheses added around some of its
nodes, the tree itself included. -/
inductive Parenthesized : Tree → Tree → Prop
  | same (tree : Tree) : Parenthesized tree tree
  | wrap {tree tree' : Tree} (inside : Parenthesized tree tree') : Parenthesized tree tree'.wrap
  | expression {child child' : Tree} (children : Parenthesized child child') (isEmpty : Bool) :
      Parenthesized (expression child isEmpty) (expression child' isEmpty)
  | combination {text : Bytes} {left left' right right' : Tree}
      (lefts : Parenthesized left left') (rights : Parenthesized right right')
      (selector : Operator.ofText? text = some .access → right.KeepsWord right') :
      Parenthesized (combination text left right) (combination text left' right')
  | application {callee callee' argument argument' : Tree}
      (callees : Parenthesized callee callee') (arguments : Parenthesized argument argument') :
      Parenthesized (application callee argument) (application callee' argument')
  | function (parameter : Option Bytes) {body body' : Tree} (bodies : Parenthesized body body') :
      Parenthesized (function parameter body) (function parameter body')
  | list {elements elements' : List Tree} (lengths : elements.length = elements'.length)
      (each : ∀ pair ∈ elements.zip elements', Parenthesized pair.1 pair.2) :
      Parenthesized (list elements) (list elements')
  | dictionary {entries entries' : List (Tree × Tree)} (lengths : entries.length = entries'.length)
      (words : ∀ pair ∈ entries.zip entries', pair.1.1.KeepsWord pair.2.1)
      (keys : ∀ pair ∈ entries.zip entries', Parenthesized pair.1.1 pair.2.1)
      (values : ∀ pair ∈ entries.zip entries', Parenthesized pair.1.2 pair.2.2) :
      Parenthesized (dictionary entries) (dictionary entries')

/-- A tree matches the tree with added parentheses. -/
theorem matching_parenthesized {permits : Failure → Prop} (all : ∀ failure, permits failure) :
    Matching (fun _ => True) permits Parenthesized := by
  intro first second added
  cases added with
  | same => exact (hereditary_all all).layer_self (fun tree _ => .same tree) trivial
  | wrap inside => exact .parentheses inside
  | expression children => exact .expression children
  | combination lefts rights selector => exact .combination lefts rights selector fun _ => all _
  | application callees arguments => exact .application callees arguments
  | function parameter bodies => exact .function bodies
  | list lengths each =>
      apply Layer.list
      rw [List.forall₂_iff_zip]
      exact ⟨lengths, fun mem => each _ mem⟩
  | dictionary lengths words keys values =>
      apply Layer.dictionary
      rw [List.forall₂_iff_zip]
      exact ⟨lengths, fun mem => ⟨words _ mem, keys _ mem, values _ mem⟩⟩

end Tree

namespace Value

/-- The second value is the first one with parentheses added inside its functions.
Related functions stand at one level and hold related arguments under the same
names, which is to say that these arguments are related dictionaries. -/
inductive Parenthesized : Value → Value → Prop
  | same (value : Value) : Parenthesized value value
  | list {items items' : List Value} (lengths : items.length = items'.length)
      (each : ∀ pair ∈ items.zip items', Parenthesized pair.1 pair.2) :
      Parenthesized (list items) (list items')
  | dictionary {dict dict' : Dict Value} (lengths : dict.entries.length = dict'.entries.length)
      (keys : ∀ pair ∈ dict.entries.zip dict'.entries, pair.1.1 = pair.2.1)
      (each : ∀ pair ∈ dict.entries.zip dict'.entries, Parenthesized pair.1.2 pair.2.2) :
      Parenthesized (dictionary dict) (dictionary dict')
  | lambda {locals locals' : List (Bytes × Value)} (level : Nat) (parameter : Option Bytes)
      {body body' : Tree} (arguments : Parenthesized (dictionary ⟨locals⟩) (dictionary ⟨locals'⟩))
      (bodies : body.Parenthesized body') :
      Parenthesized (closure (.lambda ⟨locals, level⟩ parameter body))
        (closure (.lambda ⟨locals', level⟩ parameter body'))

theorem likeness_parenthesized : Likeness (fun _ => True) Parenthesized := by
  apply Likeness.ofItems (fun _ => .same _) (fun _ => .same _) (.same _) .list .dictionary
  intro first second added
  cases added with
  | same => exact Layer.refl .same first
  | list lengths each =>
      exact .list (List.forall₂_iff_zip.mpr ⟨lengths, fun mem => each _ mem⟩)
  | dictionary lengths keys each =>
      apply Layer.dictionary
      show List.Forall₂ _ _ _
      rw [List.forall₂_iff_zip]
      exact ⟨lengths, fun mem => ⟨keys _ mem, each _ mem⟩⟩
  | lambda level parameter arguments bodies =>
      exact .closure (.lambda level parameter arguments bodies)

/-- Parentheses inside functions are not dumped. -/
theorem Parenthesized.dump_eq {first second : Value} (added : first.Parenthesized second) :
    first.dump = second.dump := by
  apply likeness_parenthesized.dump_eq _ added
  intro function function' functions
  cases functions with
  | same => rfl
  | lambda level parameter arguments bodies => rfl

end Value

/-- Scopes at one level whose arguments have the same names and differ in added
parentheses only. -/
def Scope.Parenthesized (scope scope' : Scope Value) : Prop :=
  scope.level = scope'.level ∧
    (⟨scope.locals⟩ : Dict Value).Alike Value.Parenthesized ⟨scope'.locals⟩

theorem Scope.Parenthesized.refl (scope : Scope Value) : scope.Parenthesized scope :=
  ⟨rfl, List.forall₂_same.mpr fun entry _ => ⟨rfl, .same entry.2⟩⟩

/-- The scope inside a call. -/
theorem Scope.Parenthesized.bind {scope scope' : Scope Value} (scopes : scope.Parenthesized scope')
    (parameter : Option Bytes) {argument argument' : Value}
    (arguments : argument.Parenthesized argument') :
    (scope.bind parameter argument).Parenthesized (scope'.bind parameter argument') := by
  cases parameter with
  | none => exact scopes
  | some name => exact ⟨scopes.1, .cons ⟨rfl, arguments⟩ scopes.2⟩

/-- A word stands for values that differ in added parentheses. -/
theorem Scope.Parenthesized.resolve? {scope scope' : Scope Value}
    (scopes : scope.Parenthesized scope') (environment : Environment) (name : Bytes) :
    Option.Rel Value.Parenthesized (environment.resolve? scope name)
      (environment.resolve? scope' name) := by
  have found : Option.Rel Value.Parenthesized (scope.locals.lookup name)
      (scope'.locals.lookup name) := scopes.2.get? name
  rw [Environment.resolve?, Environment.resolve?, scopes.1]
  generalize scope.locals.lookup name = bound, scope'.locals.lookup name = bound' at found
  cases found with
  | some arguments => exact .some arguments
  | none =>
      show Option.Rel _ (environment.get? scope'.level name) (environment.get? scope'.level name)
      cases environment.get? scope'.level name with
      | some value => exact .some (.same value)
      | none => exact .none

/-- Scopes that differ in added parentheses look alike to trees that do so. -/
theorem Scope.Parenthesized.scopesMatch {scope scope' : Scope Value}
    (scopes : scope.Parenthesized scope') (environment : Environment) :
    Tree.ScopesMatch Tree.Parenthesized Value.Parenthesized environment environment scope
      scope' where
  words name _ := Value.likeness_parenthesized.getD_null (scopes.resolve? environment name)
  functions parameter body body' bodies := by
    obtain ⟨locals, level⟩ := scope
    obtain ⟨locals', _⟩ := scope'
    obtain ⟨rfl, arguments⟩ := scopes
    have held := Value.likeness_parenthesized.ofLayer (.dictionary arguments)
    exact .lambda level parameter held bodies

/-- Functions that differ in added parentheses are one function of the host, or have
bodies and scopes that differ so. -/
theorem Value.Parenthesized.closure_cases {function function' : Closure Value}
    (added : Parenthesized (closure function) (closure function')) :
    (∃ name, function = .host name ∧ function' = .host name) ∨
      ∃ scope scope' parameter body body', function = .lambda scope parameter body ∧
        function' = .lambda scope' parameter body' ∧ scope.Parenthesized scope' ∧
        body.Parenthesized body' := by
  cases added with
  | same =>
      cases function with
      | host name => exact .inl ⟨name, rfl, rfl⟩
      | lambda scope parameter body =>
          exact .inr ⟨scope, scope, parameter, body, body, rfl, rfl, .refl scope, .same body⟩
  | lambda level parameter arguments bodies =>
      cases likeness_parenthesized.layer arguments with
      | dictionary arguments =>
          exact .inr ⟨_, _, parameter, _, _, rfl, rfl, ⟨rfl, arguments⟩, bodies⟩

end Juxta
