/-
# The nodes of a tree

Every node stands directly below another one or is the root. Here the way down
to a node is followed step by step, and it may be restricted: evaluation enters
all nodes but the bodies of function literals.
-/

import Juxta.Tree.Basic

namespace Juxta.Tree

/-- The nodes directly below a node, from left to right. A dictionary has each key
before its value. -/
def parts : Tree → List Tree
  | expression child _ => [child]
  | combination _ left right => [left, right]
  | application callee argument => [callee, argument]
  | function _ body => [body]
  | list elements => elements
  | dictionary entries => entries.flatMap fun entry => [entry.1, entry.2]
  | word _ | operator _ _ | number _ | string _ _ | null | hole => []

theorem mem_parts_dictionary {part : Tree} {entries : List (Tree × Tree)} :
    part ∈ (dictionary entries).parts ↔ ∃ entry ∈ entries, part = entry.1 ∨ part = entry.2 := by
  simp [parts]

/-- Whether a node is a function literal. -/
def isFunction : Tree → Bool
  | function _ _ => true
  | _ => false

/-- A node stands in a tree, where the nodes on the way down to it may be entered. -/
inductive Below (enters : Tree → Bool) (node : Tree) : Tree → Prop
  | here : Below enters node node
  | under {part tree : Tree} (entered : enters tree) (mem : part ∈ tree.parts)
      (below : Below enters node part) : Below enters node tree

/-- A node stands somewhere in a tree. -/
def Within (node tree : Tree) : Prop := Below (fun _ => true) node tree

/-- A node stands in a tree outside the bodies of its function literals. -/
def Exposed (node tree : Tree) : Prop := Below (fun tree => !tree.isFunction) node tree

/-- A property holds of every node of a tree. -/
def Everywhere (holds : Tree → Prop) (tree : Tree) : Prop := ∀ node, Within node tree → holds node

theorem everywhere_iff {holds : Tree → Prop} {tree : Tree} :
    Everywhere holds tree ↔ holds tree ∧ ∀ part ∈ tree.parts, Everywhere holds part := by
  constructor
  · intro everywhere
    exact ⟨everywhere tree .here, fun part mem node within =>
      everywhere node (.under rfl mem within)⟩
  · rintro ⟨root, parts⟩ node within
    cases within with
    | here => exact root
    | under entered mem below => exact parts _ mem node below

variable {holds : Tree → Prop}

theorem everywhere_of_parts_eq_nil {tree : Tree} (leaf : tree.parts = []) :
    Everywhere holds tree ↔ holds tree := by
  rw [everywhere_iff, leaf]
  simp

theorem everywhere_expression {child : Tree} {isEmpty : Bool} :
    Everywhere holds (expression child isEmpty) ↔
      holds (expression child isEmpty) ∧ Everywhere holds child := by
  rw [everywhere_iff, parts, List.forall_mem_singleton]

theorem everywhere_function {parameter : Option Bytes} {body : Tree} :
    Everywhere holds (function parameter body) ↔
      holds (function parameter body) ∧ Everywhere holds body := by
  rw [everywhere_iff, parts, List.forall_mem_singleton]

theorem everywhere_combination {text : Bytes} {left right : Tree} :
    Everywhere holds (combination text left right) ↔
      holds (combination text left right) ∧ Everywhere holds left ∧ Everywhere holds right := by
  rw [everywhere_iff, parts, List.forall_mem_cons, List.forall_mem_singleton]

theorem everywhere_application {callee argument : Tree} :
    Everywhere holds (application callee argument) ↔
      holds (application callee argument) ∧ Everywhere holds callee ∧
        Everywhere holds argument := by
  rw [everywhere_iff, parts, List.forall_mem_cons, List.forall_mem_singleton]

theorem everywhere_list {elements : List Tree} :
    Everywhere holds (list elements) ↔
      holds (list elements) ∧ ∀ element ∈ elements, Everywhere holds element := by
  rw [everywhere_iff, parts]

theorem everywhere_dictionary {entries : List (Tree × Tree)} :
    Everywhere holds (dictionary entries) ↔ holds (dictionary entries) ∧
      ∀ entry ∈ entries, Everywhere holds entry.1 ∧ Everywhere holds entry.2 := by
  rw [everywhere_iff, parts, List.forall_mem_flatMap]
  simp

/-- What holds everywhere in an expression holds everywhere inside it. -/
theorem Everywhere.child {tree : Tree} (everywhere : Everywhere holds tree) :
    Everywhere holds tree.child := by
  cases tree with
  | expression inner isEmpty => exact (everywhere_expression.mp everywhere).2
  | _ => exact everywhere

end Juxta.Tree
