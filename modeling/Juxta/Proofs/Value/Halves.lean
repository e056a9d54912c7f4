/-
# Dictionaries in two halves

A dictionary may also be kept as a list of keys and, apart from it, a map from keys to
values, where a key is listed when it is set and has no value yet. Nothing in the form
of the two halves keeps them in step: a key could be listed twice, or listed without a
value, or have a value and not be listed, and a loop over the keys would then find too
much, nothing or too little. However a dictionary comes about, none of this happens.
The halves are those of the list of entries, and whatever is read from them is what is
read from the entries.
-/

import Juxta.Proofs.Value.Dict
import Mathlib.Data.Finmap

namespace Juxta

/-- The keys of a dictionary in insertion order and, apart from them, its values. -/
structure Halves where
  keys : List Bytes
  items : Finmap fun _ : Bytes => Value

namespace Halves

/-- The halves of a dictionary without keys. -/
def empty : Halves := ⟨[], ∅⟩

/-- Sets a key to a value. The key goes to the end of the list if it had no value. -/
def set (halves : Halves) (key : Bytes) (value : Value) : Halves where
  keys := if key ∈ halves.items then halves.keys else halves.keys ++ [key]
  items := halves.items.insert key value

/-- The value of a key. -/
def get? (halves : Halves) (key : Bytes) : Option Value := halves.items.lookup key

/-- What a loop over the keys finds with a key, which is nothing if it has no value. -/
def found (halves : Halves) (key : Bytes) : Value := (halves.get? key).getD .nothing

/-- The number of listed keys. -/
def size (halves : Halves) : Nat := halves.keys.length

/-- The entries that a loop over the keys finds. -/
def entries (halves : Halves) : List (Bytes × Value) :=
  halves.keys.map fun key => (key, halves.found key)

/-- Sets several keys, one after the other. -/
def setAll (halves : Halves) (settings : List (Bytes × Value)) : Halves :=
  settings.foldl (fun halves entry => halves.set entry.1 entry.2) halves

/-- A new dictionary, in which every entry of the first and then of the second is set. -/
def merge (first second : Halves) : Halves := (empty.setAll first.entries).setAll second.entries

/-- The values in the byte order of their keys. -/
def sortedValues (halves : Halves) : List Value :=
  (halves.keys.mergeSort fun key later => key ≤ later).map halves.found

/-- The halves of a dictionary that repeats no key. -/
structure Represents (halves : Halves) (dict : Dict Value) : Prop where
  keys : halves.keys = dict.keys
  items : ∀ key, halves.items.lookup key = dict.get? key
  distinct : dict.keys.Nodup

/-! ### What changes the halves -/

theorem represents_empty : empty.Represents .empty where
  keys := rfl
  items := Finmap.lookup_empty
  distinct := Dict.nodup_keys_empty

variable {halves first second : Halves} {dict dict' : Dict Value}

/-- A key has a value exactly if it is listed. -/
theorem Represents.mem_items (represents : halves.Represents dict) {key : Bytes} :
    key ∈ halves.items ↔ key ∈ halves.keys := by
  rw [← Finmap.lookup_isSome, represents.items, represents.keys, Dict.isSome_get?]

theorem Represents.set (represents : halves.Represents dict) (key : Bytes) (value : Value) :
    (halves.set key value).Represents (dict.set key value) where
  keys := by
    have known : key ∈ halves.items ↔ key ∈ dict.keys := by
      rw [represents.mem_items, represents.keys]
    rw [Halves.set, represents.keys]
    by_cases present : key ∈ dict.keys
    · rw [if_pos (known.mpr present), Dict.keys_set_of_mem value present]
    · rw [if_neg (mt known.mp present), Dict.keys_set_of_not_mem value present]
  items other := by
    rw [Halves.set, Dict.get?_set]
    by_cases same : other = key
    · rw [if_pos same, same, Finmap.lookup_insert]
    · rw [if_neg same, Finmap.lookup_insert_of_ne _ same, represents.items]
  distinct := Dict.nodup_keys_set value represents.distinct

theorem Represents.setAll (represents : halves.Represents dict)
    (settings : List (Bytes × Value)) :
    (halves.setAll settings).Represents (dict.setAll settings) := by
  induction settings generalizing halves dict with
  | nil => exact represents
  | cons entry rest ih => exact ih (represents.set entry.1 entry.2)

theorem Represents.found (represents : halves.Represents dict) {entry : Bytes × Value}
    (mem : entry ∈ dict.entries) : halves.found entry.1 = entry.2 := by
  rw [Halves.found, Halves.get?, represents.items,
    (Dict.get?_eq_some_iff_mem represents.distinct).mpr mem, Option.getD_some]

/-- A loop over the keys finds every entry, and nothing else. -/
theorem Represents.entries (represents : halves.Represents dict) :
    halves.entries = dict.entries := by
  rw [Halves.entries, represents.keys, Dict.keys, List.map_map]
  refine (List.map_congr_left fun entry mem => ?_).trans (List.map_id _)
  exact Prod.ext rfl (represents.found mem)

theorem Represents.merge (represents : first.Represents dict)
    (represents' : second.Represents dict') :
    (first.merge second).Represents (dict.merge dict') := by
  have copied := (represents_empty.setAll dict.entries).setAll dict'.entries
  rw [← Dict.merge_eq_setAll, ← Dict.merge_eq_setAll, Dict.empty_merge represents.distinct]
    at copied
  rwa [Halves.merge, represents.entries, represents'.entries]

/-- Sorting the keys and looking up their values gives the values of the sorted entries. -/
theorem Represents.sortedValues (represents : halves.Represents dict) :
    halves.sortedValues = dict.sortedValues := by
  have keys : (dict.entries.mergeSort fun first second => first.1 ≤ second.1).map Prod.fst =
      dict.keys.mergeSort fun key later => key ≤ later :=
    List.map_mergeSort fun _ _ _ _ => rfl
  rw [Halves.sortedValues, represents.keys, ← keys, List.map_map, Dict.sortedValues]
  apply List.map_congr_left
  intro entry mem
  exact represents.found (List.mem_mergeSort.mp mem)

end Halves

namespace Dict

/-- The ways in which dictionaries come about. -/
inductive Construction
  | empty
  | set (before : Construction) (key : Bytes) (value : Value)
  | merge (first second : Construction)

namespace Construction

/-- The dictionary that comes about. -/
def dict : Construction → Dict Value
  | empty => .empty
  | set before key value => before.dict.set key value
  | merge first second => first.dict.merge second.dict

/-- The halves that come about in the same way. -/
def halves : Construction → Halves
  | empty => .empty
  | set before key value => before.halves.set key value
  | merge first second => first.halves.merge second.halves

theorem represents (construction : Construction) :
    construction.halves.Represents construction.dict := by
  induction construction with
  | empty => exact Halves.represents_empty
  | set before key value ih => exact ih.set key value
  | merge first second ih ih' => exact ih.merge ih'

end Construction

/-- Whatever is said of all dictionaries that come about holds of those here. -/
theorem built_iff_exists_construction {dict : Dict Value} :
    dict.Built ↔ ∃ construction : Construction, construction.dict = dict := by
  constructor
  · intro built
    induction built with
    | empty => exact ⟨.empty, rfl⟩
    | set built key value ih =>
        obtain ⟨before, rfl⟩ := ih
        exact ⟨.set before key value, rfl⟩
    | merge built built' ih ih' =>
        obtain ⟨first, rfl⟩ := ih
        obtain ⟨second, rfl⟩ := ih'
        exact ⟨.merge first second, rfl⟩
  · rintro ⟨construction, rfl⟩
    induction construction with
    | empty => exact .empty
    | set before key value ih => exact .set ih key value
    | merge first second ih ih' => exact .merge ih ih'

/-- Dictionaries and halves that come about in the same way. The halves are in step: the
listed keys are distinct, and they are the keys that have values. Keys, values, size,
entries and sorted values are those of the dictionary. -/
theorem halves_in_step (construction : Construction) :
    let dict := construction.dict
    let halves := construction.halves
    halves.keys.Nodup ∧ (∀ key, key ∈ halves.keys ↔ key ∈ halves.items) ∧
      halves.keys = dict.keys ∧ (∀ key, halves.get? key = dict.get? key) ∧
      halves.size = dict.size ∧ halves.entries = dict.entries ∧
      halves.sortedValues = dict.sortedValues := by
  intro dict halves
  have represents : halves.Represents dict := construction.represents
  refine ⟨represents.keys ▸ represents.distinct, fun key => represents.mem_items.symm,
    represents.keys, represents.items, ?_, represents.entries, represents.sortedValues⟩
  rw [Halves.size, represents.keys, size_eq_length_keys]

end Dict

end Juxta
