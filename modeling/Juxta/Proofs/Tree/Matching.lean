/-
# Trees that match

Two trees match when they have the same nodes, up to parentheses that the second one
adds. A match is made layer by layer, so that what is shown of one layer holds of whole
trees by recursion; it may keep to numbers of some sort and to trees in which evaluation
fails only in permitted ways. A sort of trees that is closed under parts gives a match of
each of its trees with itself.
-/

import Juxta.Eval.Error
import Juxta.Operator
import Mathlib.Data.List.Forall2

namespace Juxta

namespace Tree

mutual

/-- The numbers written in a tree, those in the bodies of functions included. -/
def numbers : Tree → List Fraction
  | expression child _ => child.numbers
  | combination _ left right => left.numbers ++ right.numbers
  | application callee argument => callee.numbers ++ argument.numbers
  | function _ body => body.numbers
  | list elements => numbersOfElements elements
  | dictionary entries => numbersOfEntries entries
  | number value => [value]
  | word _ | operator _ _ | string _ _ | null | hole => []

/-- The numbers written in several trees. -/
def numbersOfElements : List Tree → List Fraction
  | [] => []
  | tree :: rest => tree.numbers ++ numbersOfElements rest

/-- The numbers written in the keys and values of a dictionary literal. -/
def numbersOfEntries : List (Tree × Tree) → List Fraction
  | [] => []
  | (key, tree) :: rest => key.numbers ++ tree.numbers ++ numbersOfEntries rest

end

theorem mem_numbersOfElements {number : Fraction} {elements : List Tree} :
    number ∈ numbersOfElements elements ↔ ∃ element ∈ elements, number ∈ element.numbers := by
  induction elements with
  | nil => simp [numbersOfElements]
  | cons element rest ih => simp [numbersOfElements, ih]

theorem mem_numbersOfEntries {number : Fraction} {entries : List (Tree × Tree)} :
    number ∈ numbersOfEntries entries ↔
      ∃ entry ∈ entries, number ∈ entry.1.numbers ∨ number ∈ entry.2.numbers := by
  induction entries with
  | nil => simp [numbersOfEntries]
  | cons entry rest ih => simp [numbersOfEntries, ih, or_assoc]

/-- A sort of trees that holds the parts of its trees, whose numbers are of a
sort, and in which unknown operators and missing nodes occur only if failing
there is permitted. -/
structure Hereditary (numbers : Fraction → Prop) (permits : Failure → Prop)
    (trees : Tree → Prop) : Prop where
  expression : ∀ {child isEmpty}, trees (expression child isEmpty) → trees child
  combination : ∀ {text left right}, trees (combination text left right) →
    trees left ∧ trees right
  application : ∀ {callee argument}, trees (application callee argument) →
    trees callee ∧ trees argument
  function : ∀ {parameter body}, trees (function parameter body) → trees body
  list : ∀ {elements}, trees (list elements) → ∀ element ∈ elements, trees element
  dictionary : ∀ {entries}, trees (dictionary entries) →
    ∀ entry ∈ entries, trees entry.1 ∧ trees entry.2
  number : ∀ {value}, trees (number value) → numbers value
  unknownOperator : ∀ {text left right}, trees (.combination text left right) →
    Operator.ofText? text = none → permits (.eval ⟨text, .unknownOperator⟩)
  hole : trees hole → permits (.eval ⟨[], .unknownNode⟩)

/-- A word is left as it is. Any other tree may become another one. -/
def KeepsWord (tree tree' : Tree) : Prop := ∀ name, tree = word name → tree' = word name

/-- Entries of dictionary literals with related keys and values. A word that is a
key is left as it is. -/
def EntriesMatch (trees : Tree → Tree → Prop) (first second : Tree × Tree) : Prop :=
  first.1.KeepsWord second.1 ∧ trees first.1 second.1 ∧ trees first.2 second.2

/-- One layer of a match between trees: the nodes are the same, and their parts are
related by `trees`. The second tree may also have parentheses where the first one
has none, but not around a word that stands for its own name. -/
inductive Layer (numbers : Fraction → Prop) (permits : Failure → Prop)
    (trees : Tree → Tree → Prop) : Tree → Tree → Prop
  | parentheses {tree child : Tree} {isEmpty : Bool} (inside : trees tree child) :
      Layer numbers permits trees tree (expression child isEmpty)
  | expression {child child' : Tree} {isEmpty : Bool} (children : trees child child') :
      Layer numbers permits trees (expression child isEmpty) (expression child' isEmpty)
  | combination {text : Bytes} {left left' right right' : Tree} (lefts : trees left left')
      (rights : trees right right')
      (selector : Operator.ofText? text = some .access → right.KeepsWord right')
      (unknown : Operator.ofText? text = none → permits (.eval ⟨text, .unknownOperator⟩)) :
      Layer numbers permits trees (combination text left right) (combination text left' right')
  | application {callee callee' argument argument' : Tree} (callees : trees callee callee')
      (arguments : trees argument argument') :
      Layer numbers permits trees (application callee argument) (application callee' argument')
  | function {parameter : Option Bytes} {body body' : Tree} (bodies : trees body body') :
      Layer numbers permits trees (function parameter body) (function parameter body')
  | list {elements elements' : List Tree} (related : List.Forall₂ trees elements elements') :
      Layer numbers permits trees (list elements) (list elements')
  | dictionary {entries entries' : List (Tree × Tree)}
      (related : List.Forall₂ (EntriesMatch trees) entries entries') :
      Layer numbers permits trees (dictionary entries) (dictionary entries')
  | word {name : Bytes} (related : trees (word name) (word name)) :
      Layer numbers permits trees (word name) (word name)
  | operator (text : Bytes) (pos : Int) :
      Layer numbers permits trees (operator text pos) (operator text pos)
  | number {value : Fraction} (sort : numbers value) :
      Layer numbers permits trees (number value) (number value)
  | string (literal value : Bytes) :
      Layer numbers permits trees (string literal value) (string literal value)
  | null : Layer numbers permits trees null null
  | hole (permitted : permits (.eval ⟨[], .unknownNode⟩)) : Layer numbers permits trees hole hole

/-- A relation between trees that is made of its own layers. -/
def Matching (numbers : Fraction → Prop) (permits : Failure → Prop)
    (trees : Tree → Tree → Prop) : Prop :=
  ∀ {first second}, trees first second → Layer numbers permits trees first second

/-- Nothing else matches a word: parentheses are only added. -/
theorem Matching.eq_word {numbers : Fraction → Prop} {permits : Failure → Prop}
    {trees : Tree → Tree → Prop} (matching : Matching numbers permits trees) {tree : Tree}
    {name : Bytes} (related : trees tree (word name)) : tree = word name := by
  cases matching related with
  | word related => rfl

/-- A tree of a hereditary sort matches itself, if the trees of the sort are related
to themselves. -/
theorem Hereditary.layer_self {numbers : Fraction → Prop} {permits : Failure → Prop}
    {trees : Tree → Prop} {related : Tree → Tree → Prop}
    (hereditary : Hereditary numbers permits trees)
    (itself : ∀ tree, trees tree → related tree tree) {tree : Tree} (sort : trees tree) :
    Layer numbers permits related tree tree := by
  cases tree with
  | expression child isEmpty => exact .expression (itself child (hereditary.expression sort))
  | combination text left right =>
      obtain ⟨leftSort, rightSort⟩ := hereditary.combination sort
      exact .combination (itself left leftSort) (itself right rightSort) (fun _ _ same => same)
        (hereditary.unknownOperator sort)
  | application callee argument =>
      obtain ⟨calleeSort, argumentSort⟩ := hereditary.application sort
      exact .application (itself callee calleeSort) (itself argument argumentSort)
  | function parameter body => exact .function (itself body (hereditary.function sort))
  | list elements =>
      apply Layer.list
      rw [List.forall₂_same]
      intro element mem
      exact itself element (hereditary.list sort element mem)
  | dictionary entries =>
      apply Layer.dictionary
      rw [List.forall₂_same]
      intro entry mem
      obtain ⟨keySort, valueSort⟩ := hereditary.dictionary sort entry mem
      exact ⟨fun _ same => same, itself entry.1 keySort, itself entry.2 valueSort⟩
  | word name => exact .word (itself _ sort)
  | operator text pos => exact .operator text pos
  | number value => exact .number (hereditary.number sort)
  | string literal value => exact .string literal value
  | null => exact .null
  | hole => exact .hole (hereditary.hole sort)

/-- The trees of a hereditary sort match themselves. -/
theorem Hereditary.matching {numbers : Fraction → Prop} {permits : Failure → Prop}
    {trees : Tree → Prop} (hereditary : Hereditary numbers permits trees) :
    Matching numbers permits fun tree tree' => trees tree ∧ tree = tree' := by
  rintro tree _ ⟨sort, rfl⟩
  exact hereditary.layer_self (fun _ sort => ⟨sort, rfl⟩) sort

/-- All trees are hereditary, if every failure is permitted. -/
theorem hereditary_all {permits : Failure → Prop} (all : ∀ failure, permits failure) :
    Hereditary (fun _ => True) permits (fun _ => True) where
  expression _ := trivial
  combination _ := ⟨trivial, trivial⟩
  application _ := ⟨trivial, trivial⟩
  function _ := trivial
  list _ _ _ := trivial
  dictionary _ _ _ := ⟨trivial, trivial⟩
  number _ := trivial
  unknownOperator _ _ := all _
  hole _ := all _

/-- Every tree matches itself, if every failure is permitted. -/
theorem matching_eq {permits : Failure → Prop} (all : ∀ failure, permits failure) :
    Matching (fun _ => True) permits Eq := by
  rintro tree _ rfl
  exact (hereditary_all all).layer_self (fun _ _ => rfl) trivial

end Tree

end Juxta
