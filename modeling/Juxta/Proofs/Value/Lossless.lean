/-
# Dumps lose no data

The dump of data determines it, strings that are no UTF-8 included, and so does
the document that the dump is written as. Fields of the document are left out
when they are empty: of an empty string, an empty list and an empty dictionary
only the type is left. It is the type that keeps them apart, and behind it every
field can be found by its name. Strings are recovered from their hexadecimal
digits alone, which are those of their text where a text is given.
-/

import Juxta.Proofs.Value.Dump
import Juxta.Proofs.Value.Readable

namespace Juxta

namespace Document

variable {name : String}

theorem sequenceField_inj {items items' : List Document}
    (same : sequenceField name items = sequenceField name items') : items = items' := by
  cases items with
  | nil =>
      cases items' with
      | nil => rfl
      | cons item' items' => cases same
  | cons item items =>
      cases items' with
      | nil => cases same
      | cons item' items' => exact sequence.inj (Prod.mk.inj (List.cons.inj same).1).2

theorem textField_inj {content content' : Bytes}
    (same : textField name content = textField name content') : content = content' := by
  cases content with
  | nil =>
      cases content' with
      | nil => rfl
      | cons byte' content' => cases same
  | cons byte content =>
      cases content' with
      | nil => cases same
      | cons byte' content' => exact text.inj (Prod.mk.inj (List.cons.inj same).1).2

/-- A field stays behind when the fields of another name are taken out. -/
theorem filter_textField_append {other : String} (differs : utf8 other ≠ utf8 name)
    (content content' : Bytes) :
    (textField other content ++ textField name content').filter (·.1 = utf8 name) =
      textField name content' := by
  cases content <;> cases content' <;> simp [textField, field, differs]

end Document

theorem eq_of_map_eq {α β : Type} {f : α → β} {first second : List α}
    (apart : ∀ item ∈ first, ∀ other ∈ second, f item = f other → item = other)
    (same : first.map f = second.map f) : first = second := by
  induction first generalizing second with
  | nil => exact (List.map_eq_nil_iff.mp same.symm).symm
  | cons item rest ih =>
      obtain ⟨other, others, rfl, heads, tails⟩ := List.map_eq_cons_iff.mp same.symm
      obtain rfl := apart item List.mem_cons_self other List.mem_cons_self heads.symm
      rw [ih (fun item mem other mem' => apart item (List.mem_cons_of_mem _ mem) other
        (List.mem_cons_of_mem _ mem')) tails.symm]

namespace Value

theorem dumpItems_eq_map (items : List Value) : dumpItems items = items.map dump := by
  induction items with
  | nil => rfl
  | cons item rest ih => rw [dumpItems, ih, List.map_cons]

theorem dumpEntries_eq_map (entries : List (Bytes × Value)) :
    dumpEntries entries = entries.map fun entry => (entry.1, entry.2.dump) := by
  induction entries with
  | nil => rfl
  | cons entry rest ih => rw [dumpEntries, ih, List.map_cons]

theorem itemDocuments_dumpItems (items : List Value) :
    Dump.itemDocuments (dumpItems items) = items.map fun item => item.dump.document := by
  induction items with
  | nil => rfl
  | cons item rest ih => rw [dumpItems, Dump.itemDocuments, ih, List.map_cons]

/-- The document of an entry. -/
def entryDocument (entry : Bytes × Value) : Document :=
  .mapping [Document.field "key" (.text entry.1), Document.field "value" entry.2.dump.document]

theorem entryDocuments_dumpEntries (entries : List (Bytes × Value)) :
    Dump.entryDocuments (dumpEntries entries) = entries.map entryDocument := by
  induction entries with
  | nil => rfl
  | cons entry rest ih =>
      obtain ⟨key, value⟩ := entry
      rw [dumpEntries, Dump.entryDocuments, ih, List.map_cons, entryDocument]

/-- The type stands first in the document of data. -/
theorem exists_document_dump_eq {strings : Bytes → Prop} {value : Value}
    (data : value.IsDataOver strings) :
    ∃ fields, value.dump.document =
      .mapping (Document.field "type" (.text value.kind.text) :: fields) := by
  cases data with
  | number | string | null | list | dictionary =>
      rw [dump, Dump.document]
      exact ⟨_, rfl⟩

theorem kind_eq_of_document_eq {strings : Bytes → Prop} {first second : Value}
    (data : first.IsDataOver strings) (data' : second.IsDataOver strings)
    (same : first.dump.document = second.dump.document) : first.kind = second.kind := by
  have texts : ∀ kind kind' : Kind, kind.text = kind'.text → kind = kind' := by
    intro kind kind'
    cases kind <;> cases kind' <;> decide
  obtain ⟨fields, document⟩ := exists_document_dump_eq data
  obtain ⟨fields', document'⟩ := exists_document_dump_eq data'
  rw [document, document'] at same
  have types := (Prod.mk.inj (List.cons.inj (Document.mapping.inj same)).1).2
  exact texts _ _ (Document.text.inj types)

/-- The digits of a string can be found in its document, whether or not there is
a text before them. -/
theorem eq_of_document_string_eq {bytes bytes' : Bytes}
    (same : (string bytes).dump.document = (string bytes').dump.document) : bytes = bytes' := by
  rw [dump, dump, Dump.document, Dump.document, List.cons_append, List.cons_append] at same
  have fields := (List.cons.inj (Document.mapping.inj same)).2
  have digits := congrArg (List.filter (·.1 = utf8 "hex")) fields
  have differs : utf8 "text" ≠ utf8 "hex" := by decide
  rw [Document.filter_textField_append differs, Document.filter_textField_append differs] at digits
  exact Bytes.eq_of_hex_eq (Document.textField_inj digits)

theorem eq_of_document_number_eq {value value' : Fraction}
    (same : (number value).dump.document = (number value').dump.document) : value = value' := by
  obtain ⟨num, den⟩ := value
  obtain ⟨num', den'⟩ := value'
  rw [dump, dump, Dump.document, Dump.document, Fraction.document, Fraction.document] at same
  simp only [Document.field, Document.mapping.injEq, List.cons.injEq, Prod.mk.injEq,
    Document.integer.injEq, true_and, and_true] at same
  rw [same.1, same.2]

theorem eq_of_entryDocument_eq {entry other : Bytes × Value}
    (values : entry.2.dump.document = other.2.dump.document → entry.2 = other.2)
    (same : entryDocument entry = entryDocument other) : entry = other := by
  simp only [entryDocument, Document.field, Document.mapping.injEq, List.cons.injEq,
    Prod.mk.injEq, Document.text.injEq, true_and, and_true] at same
  exact Prod.ext same.1 (values same.2)

/-- Data has the document of no other data. -/
theorem eq_of_document_eq {strings : Bytes → Prop} {first : Value}
    (data : first.IsDataOver strings) :
    ∀ {second : Value}, second.IsDataOver strings →
      first.dump.document = second.dump.document → first = second := by
  induction data with
  | number holds =>
      intro second data' same
      have kinds := kind_eq_of_document_eq (.number holds) data' same
      cases data' with
      | number holds' => rw [eq_of_document_number_eq same]
      | _ => cases kinds
  | string holds =>
      intro second data' same
      have kinds := kind_eq_of_document_eq (.string holds) data' same
      cases data' with
      | string holds' => rw [eq_of_document_string_eq same]
      | _ => cases kinds
  | null =>
      intro second data' same
      have kinds := kind_eq_of_document_eq .null data' same
      cases data' with
      | null => rfl
      | _ => cases kinds
  | list each ih =>
      intro second data' same
      have kinds := kind_eq_of_document_eq (.list each) data' same
      cases data' with
      | list each' =>
          rw [dump, dump, Dump.document, Dump.document, itemDocuments_dumpItems,
            itemDocuments_dumpItems] at same
          have documents := Document.sequenceField_inj
            (List.cons.inj (Document.mapping.inj same)).2
          rw [eq_of_map_eq (fun item mem other mem' => ih item mem (each' other mem')) documents]
      | _ => cases kinds
  | dictionary together keys values ih =>
      intro second data' same
      have kinds := kind_eq_of_document_eq (.dictionary together keys values) data' same
      cases data' with
      | dictionary _ keys' values' =>
          rw [dump, dump, Dump.document, Dump.document, entryDocuments_dumpEntries,
            entryDocuments_dumpEntries] at same
          have documents := Document.sequenceField_inj
            (List.cons.inj (Document.mapping.inj same)).2
          rw [eq_of_map_eq (fun entry mem other mem' =>
            eq_of_entryDocument_eq (ih entry mem (values' other mem'))) documents]
      | _ => cases kinds

end Value

namespace Dump

/-- A node stands somewhere in a dump. -/
inductive Within (node : Dump) : Dump → Prop
  | here : Within node node
  | item {items : List Dump} {item : Dump} (mem : item ∈ items) (within : Within node item) :
      Within node (list items)
  | entry {entries : List (Bytes × Dump)} {entry : Bytes × Dump} (mem : entry ∈ entries)
      (within : Within node entry.2) : Within node (dictionary entries)

/-- Every node of the dump of a value is the dump of a value. -/
theorem Within.exists_dump_eq {node whole : Dump} (within : Within node whole) :
    ∀ value : Value, value.dump = whole → ∃ part : Value, part.dump = node := by
  induction within with
  | here => exact fun value same => ⟨value, same⟩
  | item mem within ih =>
      intro value same
      cases value with
      | list items =>
          rw [Value.dump, list.injEq, Value.dumpItems_eq_map] at same
          rw [← same] at mem
          obtain ⟨part, -, dumped⟩ := List.mem_map.mp mem
          exact ih part dumped
      | closure function => cases function <;> cases same
      | _ => cases same
  | entry mem within ih =>
      intro value same
      cases value with
      | dictionary dict =>
          rw [Value.dump, dictionary.injEq, Value.dumpEntries_eq_map] at same
          rw [← same] at mem
          obtain ⟨part, -, dumped⟩ := List.mem_map.mp mem
          exact ih part.2 (congrArg Prod.snd dumped)
      | closure function => cases function <;> cases same
      | _ => cases same

end Dump

namespace Value

theorem hex_eq_of_dump_eq_string {value : Value} {text hex : Bytes}
    (same : value.dump = .string (some text) hex) : hex = text.hex := by
  cases value with
  | string bytes =>
      rw [dump, Dump.string.injEq, Option.ite_none_right_eq_some] at same
      obtain ⟨⟨-, texts⟩, digits⟩ := same
      rw [← digits, Option.some.inj texts]
  | closure function => cases function <;> cases same
  | _ => cases same

/-- Two values that are made of any numbers, any byte strings, null, lists and
dictionaries are the same if they have the same dump, or only the same document of
a dump. A string in a dump that has a text has the digits of the text. -/
theorem dump_eq_iff {first second : Value} (data : first.IsDataOver fun _ => True)
    (data' : second.IsDataOver fun _ => True) :
    (first.dump = second.dump ↔ first = second) ∧
      (first.dump.document = second.dump.document ↔ first = second) ∧
      ∀ (value : Value) (text hex : Bytes),
        (Dump.string (some text) hex).Within value.dump → hex = text.hex := by
  refine ⟨⟨fun same => ?_, congrArg dump⟩, ⟨eq_of_document_eq data data', fun same => ?_⟩, ?_⟩
  · exact eq_of_document_eq data data' (congrArg Dump.document same)
  · rw [same]
  · intro value text hex within
    obtain ⟨part, dumped⟩ := within.exists_dump_eq value rfl
    exact hex_eq_of_dump_eq_string dumped

/-- Strings and keys that are no UTF-8 are printed the same and dumped apart. -/
theorem dump_eq_iff_illFormed :
    let first : Value := .list [.string [0xFF], .dictionary ⟨[([0xC3], .string (utf8 "é"))]⟩]
    let second : Value := .list [.string [0xFE], .dictionary ⟨[([0xC3], .string (utf8 "é"))]⟩]
    first.format = second.format ∧ first.dump ≠ second.dump ∧
      first.dump.document ≠ second.dump.document ∧
      (Dump.string (some (utf8 "é")) (utf8 "c3a9")).Within first.dump ∧
      utf8 "c3a9" = (utf8 "é").hex := by
  intro first second
  have isData (byte : UInt8) : (list [.string [byte],
      .dictionary ⟨[([0xC3], .string (utf8 "é"))]⟩]).IsDataOver fun _ => True := by
    refine .list ?_
    simp only [List.forall_mem_cons, List.not_mem_nil, false_implies, implies_true, and_true]
    refine ⟨.string trivial, .dictionary trivial (fun _ _ => trivial) ?_⟩
    rw [List.forall_mem_singleton]
    exact .string trivial
  have differs : first ≠ second := by simp [first, second]
  have node : (Dump.string (some (utf8 "é")) (utf8 "c3a9")).Within first.dump :=
    .item (List.mem_cons_of_mem _ List.mem_cons_self) (.entry List.mem_cons_self .here)
  obtain ⟨dumps, documents, digits⟩ := dump_eq_iff (isData 0xFF) (isData 0xFE)
  exact ⟨by decide, fun same => differs (dumps.mp same),
    fun same => differs (documents.mp same), node, digits first _ _ node⟩

end Value

end Juxta
