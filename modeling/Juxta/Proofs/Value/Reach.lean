/-
# Numbers inside values

A number is inside a value when it can be reached through lists, dictionaries,
and what a function holds on to: the values of the scope that it captures, all
the levels around it included, and the numbers written in its body. A value is
in lowest terms when every number inside it is. The values in lowest terms are a
closed sort, so evaluation does not leave them.
-/

import Juxta.Proofs.Eval.Sort
import Juxta.Proofs.Fraction.LowestTerms

namespace Juxta

namespace Value

/-- A number is inside a value. -/
inductive Reaches (environment : Environment) : Value → Fraction → Prop
  | number (value : Fraction) : Reaches environment (number value) value
  | item {items : List Value} {item : Value} {value : Fraction} (mem : item ∈ items)
      (inside : Reaches environment item value) : Reaches environment (list items) value
  | entry {dict : Dict Value} {key : Bytes} {part : Value} {value : Fraction}
      (mem : (key, part) ∈ dict.entries) (inside : Reaches environment part value) :
      Reaches environment (dictionary dict) value
  | captured {scope : Scope Value} {parameter : Option Bytes} {body : Tree} {held : Value}
      {value : Fraction} (mem : held ∈ environment.captured scope)
      (inside : Reaches environment held value) :
      Reaches environment (closure (.lambda scope parameter body)) value
  | written {scope : Scope Value} {parameter : Option Bytes} {body : Tree} {value : Fraction}
      (mem : value ∈ body.numbers) :
      Reaches environment (closure (.lambda scope parameter body)) value

/-- Every number inside a value is in lowest terms. -/
def InLowestTerms (environment : Environment) (value : Value) : Prop :=
  ∀ number, value.Reaches environment number → number.IsLowest

end Value

/-- Every number written in a tree is in lowest terms. -/
def Tree.InLowestTerms (tree : Tree) : Prop := ∀ number ∈ tree.numbers, number.IsLowest

theorem Tree.hereditary_inLowestTerms {permits : Failure → Prop}
    (all : ∀ failure, permits failure) :
    Hereditary Fraction.IsLowest permits InLowestTerms where
  expression lowest := lowest
  combination lowest := by
    simpa only [InLowestTerms, numbers, List.forall_mem_append] using lowest
  application lowest := by
    simpa only [InLowestTerms, numbers, List.forall_mem_append] using lowest
  function lowest := lowest
  list lowest element mem number written :=
    lowest number (mem_numbersOfElements.mpr ⟨element, mem, written⟩)
  dictionary lowest entry mem :=
    ⟨fun number written => lowest number (mem_numbersOfEntries.mpr ⟨entry, mem, .inl written⟩),
      fun number written => lowest number (mem_numbersOfEntries.mpr ⟨entry, mem, .inr written⟩)⟩
  number lowest := lowest _ (List.mem_singleton.mpr rfl)
  unknownOperator _ _ := all _
  hole _ := all _

namespace Value

theorem closedSort_inLowestTerms (environment : Environment) :
    ClosedSort environment Fraction.IsLowest Tree.InLowestTerms (InLowestTerms environment) where
  number {value} := by
    refine ⟨fun lowest => lowest value (.number value), ?_⟩
    rintro lowest _ ⟨⟩
    exact lowest
  string := by rintro _ _ ⟨⟩
  null := by rintro _ ⟨⟩
  list {items} := by
    refine ⟨fun lowest item mem number inside => lowest number (.item mem inside), ?_⟩
    rintro each number ⟨⟩
    case item item mem inside => exact each item mem number inside
  dictionary {dict} := by
    refine ⟨fun lowest entry mem number inside => lowest number (.entry mem inside), ?_⟩
    rintro each number ⟨⟩
    case entry key part mem inside => exact each (key, part) mem number inside
  lambda {scope parameter body} := by
    refine ⟨fun lowest => ⟨fun number mem => lowest number (.written mem),
      fun held mem number inside => lowest number (.captured mem inside)⟩, ?_⟩
    rintro ⟨written, captured⟩ number ⟨⟩
    case captured held mem inside => exact captured held mem number inside
    case written mem => exact written number mem
  ofInt := Fraction.isLowest_ofInt
  operate operation := Fraction.isLowest_operate operation

end Value

end Juxta
