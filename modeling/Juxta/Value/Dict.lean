/-
# Dictionaries

A dictionary maps byte strings to values and remembers the order in which its
keys first appeared. Setting a key that is present replaces the value where it
stands.
-/

import Juxta.Text.Bytes

namespace Juxta

/-- Keys with their values, in the order of first insertion. -/
structure Dict (α : Type) where
  entries : List (Bytes × α)
  deriving Inhabited

namespace Dict

variable {α : Type}

/-- The dictionary without keys. -/
def empty : Dict α := ⟨[]⟩

/-- Replaces the value of a key in a list of entries, or adds an entry at the end. -/
def setEntry (key : Bytes) (value : α) : List (Bytes × α) → List (Bytes × α)
  | [] => [(key, value)]
  | entry :: rest =>
      if entry.1 = key then (key, value) :: rest else entry :: setEntry key value rest

/-- The dictionary with a key set to a value. -/
def set (dict : Dict α) (key : Bytes) (value : α) : Dict α := ⟨setEntry key value dict.entries⟩

/-- The value of a key. -/
def get? (dict : Dict α) (key : Bytes) : Option α := dict.entries.lookup key

/-- The keys in insertion order. -/
def keys (dict : Dict α) : List Bytes := dict.entries.map Prod.fst

/-- The number of keys. -/
def size (dict : Dict α) : Nat := dict.entries.length

/-- The dictionary of entries that are set one after the other. -/
def ofList (entries : List (Bytes × α)) : Dict α :=
  entries.foldl (fun dict entry => dict.set entry.1 entry.2) empty

/-- The first dictionary with every entry of the second set in it. -/
def merge (first second : Dict α) : Dict α :=
  second.entries.foldl (fun dict entry => dict.set entry.1 entry.2) first

/-- The values in the byte order of their keys. -/
def sortedValues (dict : Dict α) : List α :=
  (dict.entries.mergeSort fun first second => first.1 ≤ second.1).map Prod.snd

end Dict

end Juxta
