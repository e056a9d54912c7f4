/-
# Evaluation respects likeness

Two evaluations, in scopes whose words look alike and with calls that answer alike
values alike, fail alike or give values that look alike. This holds for every
relation between runs, also for one whose stages change while the trees are evaluated.
The evaluations may be of two trees that match, and so they may be of one tree, over
every sort of trees that is closed under parts. Each kind of node is treated by itself;
the recursion on the tree follows.
-/

import Juxta.Eval.Basic
import Juxta.Proofs.Eval.Operators
import Juxta.Proofs.Tree.Matching

namespace Juxta

open Run (Relation Staged)

variable {σ τ : Type} {numbers : Fraction → Prop}

namespace Tree

section Staged

variable {ω : Type} [Preorder ω] {relation : Staged ω σ τ} {alike : ω → Value → Value → Prop}

/-- Two runs that are related from a stage on. -/
def RelatedFrom {α β : Type} (relation : Staged ω σ τ) (start : ω) (results : ω → α → β → Prop)
    (first : Run σ α) (second : Run τ β) : Prop :=
  ∀ stage, start ≤ stage → relation.relates stage results first second

/-- Scopes in which the words of matching trees look alike, and their functions too,
from a stage on. -/
structure ScopesMatchFrom (relation : Staged ω σ τ) (trees : Tree → Tree → Prop)
    (alike : ω → Value → Value → Prop) (start : ω) (look : Scope Value → Bytes → Run σ Value)
    (look' : Scope Value → Bytes → Run τ Value) (scope scope' : Scope Value) : Prop where
  words : ∀ name, trees (word name) (word name) →
    RelatedFrom relation start alike (look scope name) (look' scope' name)
  functions : ∀ stage, start ≤ stage → ∀ parameter body body', trees body body' →
    alike stage (.closure (.lambda scope parameter body))
      (.closure (.lambda scope' parameter body'))

variable {start : ω} {look : Scope Value → Bytes → Run σ Value}
  {look' : Scope Value → Bytes → Run τ Value} {scope scope' : Scope Value}
  {call : Closure Value → Value → Run σ Value} {call' : Closure Value → Value → Run τ Value}
  (lasting : Value.LastingLikeness numbers alike)
  (calls : CallsAlikeFrom relation alike start call call')

include lasting

/-- An access by a word selects by its name. Any other combination has two operands. -/
theorem relates_combination (calls : CallsAlikeFrom relation alike start call call')
    {text : Bytes} {left left' right right' : Tree}
    (lefts : RelatedFrom relation start alike (left.evalWith look call scope)
      (left'.evalWith look' call' scope'))
    (rights : RelatedFrom relation start alike (right.evalWith look call scope)
      (right'.evalWith look' call' scope'))
    (keeps : Operator.ofText? text = some .access → right.KeepsWord right')
    (adds : ∀ name, right' = word name → right = word name)
    (unknown : Operator.ofText? text = none → relation.permits (.eval ⟨text, .unknownOperator⟩)) :
    RelatedFrom relation start alike ((combination text left right).evalWith look call scope)
      ((combination text left' right').evalWith look' call' scope') := by
  intro stage reached
  by_cases selects : ∃ name, Operator.ofText? text = some .access ∧ right = word name
  · obtain ⟨name, meaning, isWord⟩ := selects
    obtain rfl := keeps meaning name isWord
    subst isWord
    simp only [evalWith, meaning]
    refine relation.bind (lefts stage reached) fun later _ value value' values => ?_
    exact relation.ofEval ((lasting.likeness later).agree_select values (.key name))
  · have plain (name : Bytes) (meaning : Operator.ofText? text = some .access)
        (isWord : right = word name) : False := selects ⟨name, meaning, isWord⟩
    rw [evalWith, evalWith]
    · refine relation.bind (lefts stage reached) fun later le a a' first => ?_
      have reached' := reached.trans le
      refine relation.bind (rights later reached') fun latest le' b b' second => ?_
      cases found : Operator.ofText? text with
      | some meaning =>
          exact lasting.relates_apply calls meaning (reached'.trans le')
            (lasting.lasting le' first) second
      | none => exact relation.ofThrow (unknown found)
    · exact fun name meaning isWord => plain name meaning (adds name isWord)
    · exact plain

theorem relates_application (calls : CallsAlikeFrom relation alike start call call')
    {callee callee' argument argument' : Tree}
    (callees : RelatedFrom relation start alike (callee.evalWith look call scope)
      (callee'.evalWith look' call' scope'))
    (arguments : RelatedFrom relation start alike (argument.evalWith look call scope)
      (argument'.evalWith look' call' scope')) :
    RelatedFrom relation start alike ((application callee argument).evalWith look call scope)
      ((application callee' argument').evalWith look' call' scope') := by
  intro stage reached
  rw [evalWith, evalWith]
  refine relation.bind (callees stage reached) fun later le value value' values => ?_
  have reached' := reached.trans le
  refine relation.bind (arguments later reached') fun latest le' operand operand' operands => ?_
  cases (lasting.likeness latest).layer (lasting.lasting le' values) with
  | closure functions => exact calls latest (reached'.trans le') _ _ _ _ functions operands
  | _ => exact relation.ofThrow (relation.ordinary ⟨nofun, nofun⟩)

theorem relates_elements {tree tree' : Tree} {rest rest' : List Tree}
    (firsts : RelatedFrom relation start alike (tree.evalWith look call scope)
      (tree'.evalWith look' call' scope'))
    (others : RelatedFrom relation start (fun stage => List.Forall₂ (alike stage))
      (evalList look call scope rest) (evalList look' call' scope' rest')) :
    RelatedFrom relation start (fun stage => List.Forall₂ (alike stage))
      (evalList look call scope (tree :: rest)) (evalList look' call' scope' (tree' :: rest')) := by
  intro stage reached
  rw [evalList, evalList]
  refine relation.bind (firsts stage reached) fun later le _ _ values => ?_
  refine relation.bind (others later (reached.trans le)) fun latest le' _ _ items => ?_
  exact relation.ofPure (.cons (lasting.lasting le' values) items)

/-- Dictionaries that are alike when the entries behind them are set. -/
def EntriesRelatedFrom (relation : Staged ω σ τ) (alike : ω → Value → Value → Prop) (start : ω)
    (setEntries : Dict Value → Run σ (Dict Value))
    (setEntries' : Dict Value → Run τ (Dict Value)) : Prop :=
  ∀ stage, start ≤ stage → ∀ dict dict' : Dict Value, dict.Alike (alike stage) dict' →
    relation.relates stage (fun later => Dict.Alike (alike later)) (setEntries dict)
      (setEntries' dict')

/-- An entry whose key is a word sets its name. Any other key is evaluated first. -/
theorem relates_entries {key key' tree tree' : Tree} {rest rest' : List (Tree × Tree)}
    (keeps : key.KeepsWord key') (adds : ∀ name, key' = word name → key = word name)
    (keys : RelatedFrom relation start alike (key.evalWith look call scope)
      (key'.evalWith look' call' scope'))
    (values : RelatedFrom relation start alike (tree.evalWith look call scope)
      (tree'.evalWith look' call' scope'))
    (others : EntriesRelatedFrom relation alike start (evalEntries look call scope · rest)
      (evalEntries look' call' scope' · rest')) :
    EntriesRelatedFrom relation alike start (evalEntries look call scope · ((key, tree) :: rest))
      (evalEntries look' call' scope' · ((key', tree') :: rest')) := by
  intro stage reached dict dict' dicts
  have setting (name : Bytes) {later : ω} (le : stage ≤ later) :
      relation.relates later (fun latest => Dict.Alike (alike latest))
        (tree.evalWith look call scope >>= fun value =>
          evalEntries look call scope (dict.set name value) rest)
        (tree'.evalWith look' call' scope' >>= fun value =>
          evalEntries look' call' scope' (dict'.set name value) rest') := by
    have reached' := reached.trans le
    refine relation.bind (values later reached') fun latest le' _ _ same => ?_
    have kept := lasting.dicts (le.trans le') dicts
    exact others latest (reached'.trans le') _ _ (kept.set name same)
  dsimp only
  by_cases isWord : ∃ name, key = word name
  · obtain ⟨name, isWord⟩ := isWord
    obtain rfl : key' = word name := keeps name isWord
    subst isWord
    rw [evalEntries, evalEntries]
    exact setting name le_rfl
  · have plain (name : Bytes) (same : key = word name) : False := isWord ⟨name, same⟩
    rw [evalEntries, evalEntries]
    · refine relation.bind (keys stage reached) fun later le value value' same => ?_
      cases (lasting.likeness later).layer same with
      | string name => exact setting name le
      | _ => exact relation.ofThrow (relation.ordinary ⟨nofun, nofun⟩)
    · exact fun name same => plain name (adds name same)
    · exact plain

variable {trees : Tree → Tree → Prop} (matching : Matching numbers relation.permits trees)
  (scopes : ScopesMatchFrom relation trees alike start look look' scope scope')

include calls matching scopes

-- The hypotheses reach the list and the entries only through the recursion.
set_option linter.unusedSectionVars false in
mutual

/-- Evaluation of matching trees in alike scopes with alike calls is alike. -/
theorem relatedFrom_evalWith :
    ∀ tree' tree : Tree, trees tree tree' → RelatedFrom relation start alike
      (tree.evalWith look call scope) (tree'.evalWith look' call' scope')
  -- The recursion is on the second tree: it has all the nodes of the first one.
  | expression child' _, tree, related => by
      intro stage reached
      cases matching related with
      | parentheses inside =>
          rw [evalWith]
          exact relatedFrom_evalWith child' tree inside stage reached
      | expression children =>
          rw [evalWith, evalWith]
          exact relatedFrom_evalWith child' _ children stage reached
  | combination text left' right', tree, related => by
      cases matching related with
      | combination lefts rights selector unknown =>
          apply relates_combination lasting calls (relatedFrom_evalWith left' _ lefts)
            (relatedFrom_evalWith right' _ rights) selector _ unknown
          rintro name rfl
          exact matching.eq_word rights
  | application callee' argument', tree, related => by
      cases matching related with
      | application callees arguments =>
          exact relates_application lasting calls (relatedFrom_evalWith callee' _ callees)
            (relatedFrom_evalWith argument' _ arguments)
  | function parameter body', tree, related => by
      intro stage reached
      cases matching related with
      | function bodies =>
          rw [evalWith, evalWith]
          exact relation.ofPure (scopes.functions stage reached parameter _ body' bodies)
  | list elements', tree, related => by
      intro stage reached
      cases matching related with
      | list elements =>
          rw [evalWith, evalWith]
          exact relation.map (relatedFrom_evalList elements' _ elements stage reached)
            fun later _ _ items => (lasting.likeness later).ofLayer (.list items)
  | dictionary entries', tree, related => by
      intro stage reached
      cases matching related with
      | dictionary entries =>
          rw [evalWith, evalWith]
          exact relation.map
            (relatedFrom_evalEntries entries' _ entries stage reached _ _ .nil)
            fun later _ _ dicts => (lasting.likeness later).ofLayer (.dictionary dicts)
  | word name, tree, related => by
      intro stage reached
      cases matching related with
      | word related =>
          rw [evalWith, evalWith]
          exact scopes.words name related stage reached
  | operator _ _, tree, related => by
      intro stage reached
      cases matching related with
      | operator text pos =>
          rw [evalWith, evalWith]
          exact relation.ofThrow (relation.ordinary ⟨nofun, nofun⟩)
  | number value, tree, related => by
      intro stage reached
      cases matching related with
      | number sort =>
          rw [evalWith, evalWith]
          exact relation.ofPure ((lasting.likeness stage).ofLayer (.number sort))
  | string _ value, tree, related => by
      intro stage reached
      cases matching related with
      | string literal =>
          rw [evalWith, evalWith]
          exact relation.ofPure ((lasting.likeness stage).ofLayer (.string value))
  | null, tree, related => by
      intro stage reached
      cases matching related with
      | null =>
          rw [evalWith, evalWith]
          exact relation.ofPure ((lasting.likeness stage).ofLayer .null)
  | hole, tree, related => by
      intro stage reached
      cases matching related with
      | hole permitted =>
          rw [evalWith, evalWith]
          exact relation.ofThrow permitted

theorem relatedFrom_evalList :
    ∀ elements' elements : List Tree, List.Forall₂ trees elements elements' →
      RelatedFrom relation start (fun stage => List.Forall₂ (alike stage))
        (evalList look call scope elements) (evalList look' call' scope' elements')
  | [], _, .nil => by
      intro stage reached
      rw [evalList, evalList]
      exact relation.ofPure .nil
  | tree' :: rest', tree :: rest, .cons related later =>
      relates_elements lasting (relatedFrom_evalWith tree' tree related)
        (relatedFrom_evalList rest' rest later)

theorem relatedFrom_evalEntries :
    ∀ entries' entries : List (Tree × Tree), List.Forall₂ (EntriesMatch trees) entries entries' →
      EntriesRelatedFrom relation alike start (evalEntries look call scope · entries)
        (evalEntries look' call' scope' · entries')
  | [], _, .nil => by
      intro stage reached dict dict' dicts
      dsimp only
      rw [evalEntries, evalEntries]
      exact relation.ofPure dicts
  | (key', tree') :: rest', (key, tree) :: rest, .cons ⟨keeps, keys, values⟩ later => by
      apply relates_entries lasting keeps _ (relatedFrom_evalWith key' key keys)
        (relatedFrom_evalWith tree' tree values) (relatedFrom_evalEntries rest' rest later)
      rintro name rfl
      exact matching.eq_word keys

end

end Staged

variable {relation : Relation σ τ} {alike : Value → Value → Prop}
  {environment environment' : Environment} {scope scope' : Scope Value}
  {call : Closure Value → Value → Run σ Value} {call' : Closure Value → Value → Run τ Value}

/-- Scopes in which the words of matching trees look alike, and their functions too. -/
structure ScopesMatch (trees : Tree → Tree → Prop) (alike : Value → Value → Prop)
    (environment environment' : Environment) (scope scope' : Scope Value) : Prop where
  words : ∀ name, trees (word name) (word name) →
    alike ((environment.resolve? scope name).getD .null)
      ((environment'.resolve? scope' name).getD .null)
  functions : ∀ parameter body body', trees body body' →
    alike (.closure (.lambda scope parameter body)) (.closure (.lambda scope' parameter body'))

/-- Evaluation of matching trees with a relation that has a single stage. -/
theorem relates_evalWith_of_matching {trees : Tree → Tree → Prop}
    (likeness : Value.Likeness numbers alike) (matching : Matching numbers relation.permits trees)
    (calls : CallsAlike relation alike call call')
    (scopes : ScopesMatch trees alike environment environment' scope scope')
    {tree tree' : Tree} (related : trees tree tree') :
    relation.relates alike (tree.evalWith environment.look call scope)
      (tree'.evalWith environment'.look call' scope') := by
  have looks : ScopesMatchFrom relation.steady trees (fun _ => alike) .now environment.look
      environment'.look scope scope' :=
    ⟨fun name isWord _ _ => relation.ofPure (scopes.words name isWord),
      fun _ _ => scopes.functions⟩
  exact relatedFrom_evalWith likeness.steady calls.steady matching looks tree' tree related .now
    le_rfl

/-- Scopes in which every word of a sort looks alike, and every function literal too. -/
structure ScopesAlike (trees : Tree → Prop) (alike : Value → Value → Prop)
    (environment environment' : Environment) (scope scope' : Scope Value) : Prop where
  words : ∀ name, trees (word name) → alike ((environment.resolve? scope name).getD .null)
    ((environment'.resolve? scope' name).getD .null)
  functions : ∀ parameter body, trees body →
    alike (.closure (.lambda scope parameter body)) (.closure (.lambda scope' parameter body))

/-- Evaluation in alike scopes with alike calls is alike. -/
theorem relates_evalWith {trees : Tree → Prop} (likeness : Value.Likeness numbers alike)
    (hereditary : Hereditary numbers relation.permits trees)
    (calls : CallsAlike relation alike call call')
    (scopes : ScopesAlike trees alike environment environment' scope scope') (tree : Tree)
    (sort : trees tree) :
    relation.relates alike (tree.evalWith environment.look call scope)
      (tree.evalWith environment'.look call' scope') := by
  apply relates_evalWith_of_matching likeness hereditary.matching calls _
    (⟨sort, rfl⟩ : trees tree ∧ tree = tree)
  constructor
  · intro name related
    exact scopes.words name related.1
  · rintro parameter body _ ⟨sort, rfl⟩
    exact scopes.functions parameter body sort

end Tree

end Juxta
