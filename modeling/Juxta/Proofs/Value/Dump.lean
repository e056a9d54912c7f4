/-
# What a dump tells

The dump of a value forgets the bodies of its functions and what they hold on to,
and nothing that is printed: values with the same dump have the same printed
form. Strings are told apart by their hexadecimal digits, functions only by the
name of their parameter or of the host's function. So a likeness whose functions
have the same dump relates only values with the same dump.
-/

import Juxta.Proofs.Value.Alike
import Juxta.Value.Dump
import Juxta.Value.Format

namespace Juxta

theorem Bytes.eq_of_hexDigit_eq {nibble nibble' : Nat} (bound : nibble < 16) (bound' : nibble' < 16)
    (same : hexDigit 0x61 nibble = hexDigit 0x61 nibble') : nibble = nibble' := by
  have distinct : ∀ nibble < 16, ∀ nibble' < 16,
      hexDigit 0x61 nibble = hexDigit 0x61 nibble' → nibble = nibble' := by
    decide
  exact distinct nibble bound nibble' bound' same

theorem Bytes.eq_of_hex_eq {first second : Bytes} (same : hex first = hex second) :
    first = second := by
  induction first generalizing second with
  | nil =>
      cases second with
      | nil => rfl
      | cons byte rest => cases same
  | cons byte rest ih =>
      cases second with
      | nil => cases same
      | cons byte' rest' =>
          obtain ⟨high, later⟩ := List.cons.inj same
          obtain ⟨low, rests⟩ := List.cons.inj later
          have bound := byte.toNat_lt
          have bound' := byte'.toNat_lt
          have highs : byte.toNat / 16 = byte'.toNat / 16 :=
            eq_of_hexDigit_eq (by omega) (by omega) high
          have lows : byte.toNat % 16 = byte'.toNat % 16 :=
            eq_of_hexDigit_eq (by omega) (by omega) low
          have bytes : byte = byte' := UInt8.toNat_inj.mp (by omega)
          rw [bytes, ih rests]

namespace Value

theorem formatItems_eq_join (depth : Nat) (items : List Value) :
    formatItems depth items =
      Bytes.join [Ascii.comma, Ascii.space] (items.map (formatAt depth)) := by
  induction items with
  | nil => rfl
  | cons item rest ih =>
      cases rest with
      | nil => rfl
      | cons next rest =>
          rw [formatItems, ih]
          · rfl
          · exact List.cons_ne_nil next rest

mutual

/-- The dump of a value determines its printed form, at every depth. -/
theorem formatAt_eq_of_dump_eq (depth : Nat) :
    ∀ first second : Value, first.dump = second.dump →
      first.formatAt depth = second.formatAt depth
  | number value, second, same => by
      cases second with
      | number value' =>
          cases same
          rfl
      | closure function => cases function <;> cases same
      | _ => cases same
  | string bytes, second, same => by
      cases second with
      | string bytes' =>
          obtain ⟨_, hexes⟩ := Dump.string.inj same
          rw [Bytes.eq_of_hex_eq hexes]
      | closure function => cases function <;> cases same
      | _ => cases same
  | null, second, same => by
      cases second with
      | null => rfl
      | closure function => cases function <;> cases same
      | _ => cases same
  | list items, second, same => by
      cases second with
      | list items' =>
          have texts := map_formatAt_eq_of_dumpItems_eq depth items items' (Dump.list.inj same)
          rw [formatAt, formatAt, formatItems_eq_join, formatItems_eq_join, texts]
      | closure function => cases function <;> cases same
      | _ => cases same
  | dictionary ⟨entries⟩, second, same => by
      cases second with
      | dictionary dict =>
          obtain ⟨entries'⟩ := dict
          have lines := formatEntries_eq_of_dumpEntries_eq depth entries entries'
            (Dump.dictionary.inj same)
          rw [formatAt, formatAt, lines]
      | closure function => cases function <;> cases same
      | _ => cases same
  | closure function, second, same => by
      cases second with
      | closure function' => rfl
      | _ => cases function <;> cases same
  | foreign, second, same => by
      cases second with
      | foreign | nothing => rfl
      | closure function => cases function <;> cases same
      | _ => cases same
  | nothing, second, same => by
      cases second with
      | foreign | nothing => rfl
      | closure function => cases function <;> cases same
      | _ => cases same

theorem map_formatAt_eq_of_dumpItems_eq (depth : Nat) :
    ∀ first second : List Value, dumpItems first = dumpItems second →
      first.map (formatAt depth) = second.map (formatAt depth)
  | [], [], _ => rfl
  | item :: rest, item' :: rest', same => by
      obtain ⟨items, rests⟩ := List.cons.inj same
      rw [List.map_cons, List.map_cons, formatAt_eq_of_dump_eq depth item item' items,
        map_formatAt_eq_of_dumpItems_eq depth rest rest' rests]

theorem formatEntries_eq_of_dumpEntries_eq (depth : Nat) :
    ∀ first second : List (Bytes × Value), dumpEntries first = dumpEntries second →
      formatEntries depth first = formatEntries depth second
  | [], [], _ => rfl
  | (key, value) :: rest, (key', value') :: rest', same => by
      obtain ⟨entries, rests⟩ := List.cons.inj same
      obtain ⟨keys, values⟩ := Prod.mk.inj entries
      rw [formatEntries, formatEntries, keys,
        formatAt_eq_of_dump_eq (depth + 1) value value' values,
        formatEntries_eq_of_dumpEntries_eq depth rest rest' rests]

end

theorem format_eq_of_dump_eq {first second : Value} (same : first.dump = second.dump) :
    first.format = second.format :=
  formatAt_eq_of_dump_eq 0 first second same

namespace Likeness

variable {numbers : Fraction → Prop} {alike : Value → Value → Prop}

mutual

/-- Values that look alike have the same dump, if alike functions have. -/
theorem dump_eq (likeness : Likeness numbers alike)
    (functions : ∀ {function function'}, alike (closure function) (closure function') →
      (closure function).dump = (closure function').dump) :
    ∀ {first second : Value}, alike first second → first.dump = second.dump
  | number _, _, related => by
      cases likeness.layer related with
      | number => rfl
  | string _, _, related => by
      cases likeness.layer related with
      | string => rfl
  | null, _, related => by
      cases likeness.layer related with
      | null => rfl
  | list _, _, related => by
      cases likeness.layer related with
      | list items => rw [dump, dump, likeness.dumpItems_eq functions items]
  | dictionary ⟨_⟩, _, related => by
      cases likeness.layer related with
      | dictionary entries => rw [dump, dump, likeness.dumpEntries_eq functions entries]
  | closure _, _, related => by
      cases likeness.layer related with
      | closure related => exact functions related
  | foreign, _, related => by
      cases likeness.layer related with
      | foreign => rfl
  | nothing, _, related => by
      cases likeness.layer related with
      | nothing => rfl

theorem dumpItems_eq (likeness : Likeness numbers alike)
    (functions : ∀ {function function'}, alike (closure function) (closure function') →
      (closure function).dump = (closure function').dump) :
    ∀ {first second : List Value}, List.Forall₂ alike first second →
      dumpItems first = dumpItems second
  | [], _, .nil => rfl
  | item :: rest, _, .cons related later => by
      rw [dumpItems, dumpItems, likeness.dump_eq functions related,
        likeness.dumpItems_eq functions later]

theorem dumpEntries_eq (likeness : Likeness numbers alike)
    (functions : ∀ {function function'}, alike (closure function) (closure function') →
      (closure function).dump = (closure function').dump) :
    ∀ {first second : List (Bytes × Value)}, List.Forall₂ (Dict.EntriesAlike alike) first second →
      dumpEntries first = dumpEntries second
  | [], _, .nil => rfl
  | (key, value) :: rest, (_, _) :: _, .cons ⟨keys, related⟩ later => by
      cases keys
      rw [dumpEntries, dumpEntries, likeness.dump_eq functions related,
        likeness.dumpEntries_eq functions later]

end

end Likeness

end Value

end Juxta
