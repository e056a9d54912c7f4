/-
# Values that look alike

A likeness relates values that have the same numbers, strings and shape and
differ at most inside their functions; it may also keep to numbers of some sort.
What relates two functions is left open, so that one likeness serves for values
seen in two environments and another for values that are equal and sound. Every
way in which operators take values apart and put them together respects a
likeness, dictionaries and their order of keys included.
-/

import Juxta.Eval.Operation
import Mathlib.Data.List.Forall2

namespace Juxta

/-- Entries with the same key and related values. -/
def Dict.EntriesAlike (alike : Value → Value → Prop) (first second : Bytes × Value) : Prop :=
  first.1 = second.1 ∧ alike first.2 second.2

/-- Dictionaries with the same keys in the same order and related values. -/
def Dict.Alike (alike : Value → Value → Prop) (first second : Dict Value) : Prop :=
  List.Forall₂ (Dict.EntriesAlike alike) first.entries second.entries

namespace Value

/-- One layer of a likeness: the parts of two values are related by `alike`. -/
inductive Layer (numbers : Fraction → Prop) (alike : Value → Value → Prop) : Value → Value → Prop
  | number {value : Fraction} (sort : numbers value) :
      Layer numbers alike (number value) (number value)
  | string (bytes : Bytes) : Layer numbers alike (string bytes) (string bytes)
  | null : Layer numbers alike null null
  | list {items items' : List Value} (related : List.Forall₂ alike items items') :
      Layer numbers alike (list items) (list items')
  | dictionary {dict dict' : Dict Value} (related : dict.Alike alike dict') :
      Layer numbers alike (dictionary dict) (dictionary dict')
  | closure {function function' : Closure Value}
      (related : alike (closure function) (closure function')) :
      Layer numbers alike (closure function) (closure function')
  | foreign (related : alike foreign foreign) : Layer numbers alike foreign foreign
  | nothing (related : alike nothing nothing) : Layer numbers alike nothing nothing

/-- Every value looks like itself, if its parts are related to themselves. -/
theorem Layer.refl {alike : Value → Value → Prop} (itself : ∀ value, alike value value)
    (value : Value) : Layer (fun _ => True) alike value value := by
  cases value with
  | number value => exact .number trivial
  | string bytes => exact .string bytes
  | null => exact .null
  | list items => exact .list (List.forall₂_same.mpr fun item _ => itself item)
  | dictionary dict =>
      exact .dictionary (List.forall₂_same.mpr fun entry _ => ⟨rfl, itself entry.2⟩)
  | closure function => exact .closure (itself _)
  | foreign => exact .foreign (itself _)
  | nothing => exact .nothing (itself _)

/-- A relation that is made of its own layers, over a sort of numbers that the
operators do not leave. -/
structure Likeness (numbers : Fraction → Prop) (alike : Value → Value → Prop) : Prop where
  layer : ∀ {first second}, alike first second → Layer numbers alike first second
  ofLayer : ∀ {first second}, Layer numbers alike first second → alike first second
  ofInt : ∀ value, numbers (Fraction.ofInt value)
  operate : ∀ operation {first second}, numbers first → numbers second →
    numbers (Fraction.operate operation first second)

/-- A relation between values with any numbers is a likeness if it is made of its own
layers and goes through lists and dictionaries, item by item. -/
theorem Likeness.ofItems {alike : Value → Value → Prop}
    (number : ∀ value, alike (number value) (number value))
    (string : ∀ bytes, alike (string bytes) (string bytes)) (null : alike null null)
    (list : ∀ {items items' : List Value}, items.length = items'.length →
      (∀ pair ∈ items.zip items', alike pair.1 pair.2) → alike (list items) (list items'))
    (dictionary : ∀ {dict dict' : Dict Value}, dict.entries.length = dict'.entries.length →
      (∀ pair ∈ dict.entries.zip dict'.entries, pair.1.1 = pair.2.1) →
      (∀ pair ∈ dict.entries.zip dict'.entries, alike pair.1.2 pair.2.2) →
      alike (dictionary dict) (dictionary dict'))
    (layer : ∀ {first second}, alike first second → Layer (fun _ => True) alike first second) :
    Likeness (fun _ => True) alike where
  layer := layer
  ofLayer := by
    intro first second layer
    cases layer with
    | number _ => exact number _
    | string bytes => exact string bytes
    | null => exact null
    | list related =>
        have zipped := List.forall₂_iff_zip.mp related
        exact list zipped.1 fun _ mem => zipped.2 mem
    | dictionary related =>
        have zipped := List.forall₂_iff_zip.mp related
        exact dictionary zipped.1 (fun _ mem => (zipped.2 mem).1) fun _ mem => (zipped.2 mem).2
    | closure related | foreign related | nothing related => exact related
  ofInt _ := trivial
  operate _ _ _ _ _ := trivial

end Value

namespace Dict

variable {alike : Value → Value → Prop} {first second : Dict Value}

theorem Alike.get? (related : first.Alike alike second) (key : Bytes) :
    Option.Rel alike (first.get? key) (second.get? key) := by
  obtain ⟨entries⟩ := first
  obtain ⟨entries'⟩ := second
  simp only [Alike, Dict.get?] at related ⊢
  induction related with
  | nil => exact .none
  | @cons entry entry' rest rest' same _ ih =>
      obtain ⟨name, value⟩ := entry
      obtain ⟨name', value'⟩ := entry'
      obtain ⟨rfl, values⟩ : name = name' ∧ alike value value' := same
      rw [List.lookup_cons, List.lookup_cons]
      by_cases found : key == name
      · simp only [found]
        exact .some values
      · simp only [found]
        exact ih

theorem Alike.set (related : first.Alike alike second) (key : Bytes) {value value' : Value}
    (values : alike value value') : (first.set key value).Alike alike (second.set key value') := by
  obtain ⟨entries⟩ := first
  obtain ⟨entries'⟩ := second
  simp only [Alike, Dict.set] at related ⊢
  induction related with
  | nil => exact .cons ⟨rfl, values⟩ .nil
  | @cons entry entry' rest rest' same later ih =>
      have keys : entry.1 = entry'.1 := same.1
      rw [setEntry, setEntry, keys]
      by_cases found : entry'.1 = key
      · rw [if_pos found, if_pos found]
        exact .cons ⟨rfl, values⟩ later
      · rw [if_neg found, if_neg found]
        exact .cons same ih

theorem Alike.merge {other other' : Dict Value} (related : first.Alike alike second)
    (others : other.Alike alike other') :
    (first.merge other).Alike alike (second.merge other') := by
  obtain ⟨entries⟩ := other
  obtain ⟨entries'⟩ := other'
  simp only [Dict.merge]
  simp only [Alike] at others
  induction others generalizing first second with
  | nil => exact related
  | @cons entry entry' rest rest' same _ ih =>
      have keys : entry.1 = entry'.1 := same.1
      rw [List.foldl_cons, List.foldl_cons, keys]
      exact ih (related.set entry'.1 same.2)

/-- Related dictionaries have the same keys in the same places, so they are sorted alike. -/
theorem Alike.sortedValues (related : first.Alike alike second) :
    List.Forall₂ alike first.sortedValues second.sortedValues := by
  -- Both lists of entries are projections of one list of pairs; sort that list once.
  let pairs := first.entries.zip second.entries
  have lengths : first.entries.length = second.entries.length := related.length_eq
  have firsts : pairs.map Prod.fst = first.entries := List.map_fst_zip (Nat.le_of_eq lengths)
  have seconds : pairs.map Prod.snd = second.entries :=
    List.map_snd_zip (Nat.le_of_eq lengths.symm)
  have each : ∀ pair ∈ pairs, EntriesAlike alike pair.1 pair.2 := by
    rintro ⟨entry, entry'⟩ mem
    exact (List.forall₂_iff_zip.mp related).2 mem
  let sorted := pairs.mergeSort fun pair pair' => pair.1.1 ≤ pair'.1.1
  have sortedFirst : sorted.map Prod.fst =
      first.entries.mergeSort fun entry entry' => entry.1 ≤ entry'.1 := by
    rw [← firsts]
    exact List.map_mergeSort fun _ _ _ _ => rfl
  have sortedSecond : sorted.map Prod.snd =
      second.entries.mergeSort fun entry entry' => entry.1 ≤ entry'.1 := by
    rw [← seconds]
    refine List.map_mergeSort fun pair mem pair' mem' => ?_
    rw [(each pair mem).1, (each pair' mem').1]
  rw [Dict.sortedValues, Dict.sortedValues, ← sortedFirst, ← sortedSecond, List.map_map,
    List.map_map, List.forall₂_map_left_iff, List.forall₂_map_right_iff, List.forall₂_same]
  intro pair mem
  exact (each pair (List.mem_mergeSort.mp mem)).2

end Dict

namespace Value.Likeness

variable {numbers : Fraction → Prop} {alike : Value → Value → Prop} {first second : Value}

theorem kind_eq (likeness : Likeness numbers alike) (related : alike first second) :
    first.kind = second.kind := by
  cases likeness.layer related <;> rfl

theorem ofBool (likeness : Likeness numbers alike) (value : Bool) :
    alike (Value.ofBool value) (Value.ofBool value) :=
  likeness.ofLayer (.number (likeness.ofInt _))

theorem getD_null (likeness : Likeness numbers alike) {found found' : Option Value}
    (related : Option.Rel alike found found') : alike (found.getD null) (found'.getD null) := by
  cases related with
  | none => exact likeness.ofLayer .null
  | some values => exact values

theorem itemAt (likeness : Likeness numbers alike) {items items' : List Value}
    (related : List.Forall₂ alike items items') (position : Int) :
    alike (Value.itemAt items position) (Value.itemAt items' position) := by
  rw [Value.itemAt, Value.itemAt]
  by_cases negative : position < 0
  · rw [if_pos negative, if_pos negative]
    exact likeness.ofLayer .null
  · rw [if_neg negative, if_neg negative]
    apply likeness.getD_null
    generalize position.toNat = index
    induction related generalizing index with
    | nil => exact .none
    | cons values _ ih =>
        cases index with
        | zero => exact .some values
        | succ index => exact ih index

theorem size?_eq (likeness : Likeness numbers alike) (related : alike first second) :
    first.size? = second.size? := by
  cases likeness.layer related with
  | list items => exact congrArg some items.length_eq
  | dictionary entries => exact congrArg some entries.length_eq
  | _ => rfl

theorem isEqual_eq (likeness : Likeness numbers alike) {other other' : Value}
    (related : alike first second) (others : alike other other') :
    first.isEqual other = second.isEqual other' := by
  cases likeness.layer related <;> cases likeness.layer others <;> rfl

theorem selector?_eq (likeness : Likeness numbers alike) (related : alike first second) :
    first.selector? = second.selector? := by
  cases likeness.layer related <;> rfl

theorem count_eq (likeness : Likeness numbers alike) (related : alike first second)
    (operator : Operator) : first.count operator = second.count operator := by
  cases likeness.layer related <;> rfl

theorem mapped? (likeness : Likeness numbers alike) (related : alike first second) :
    Option.Rel (List.Forall₂ alike) first.mapped? second.mapped? := by
  cases likeness.layer related with
  | list items => exact .some items
  | dictionary entries => exact .some entries.sortedValues
  | _ => exact .none

end Value.Likeness

end Juxta
