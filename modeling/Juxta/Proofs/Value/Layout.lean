/-
# The layout of printed values

A value inside some dictionaries is printed as it is outside, with as many tabs
more behind every line feed. This needs that only the layout of dictionaries
breaks lines: a line feed in a string or a key is escaped, ill-formed bytes become
a replacement character, and numbers and marks have none.
-/

import Juxta.Proofs.Text.Numeral
import Juxta.Proofs.Text.Utf8
import Juxta.Value.Format

namespace Juxta

namespace Bytes

/-- A text with tabs inserted behind every line feed. -/
def indent (tabs : Nat) (text : Bytes) : Bytes :=
  text.flatMap fun byte => if byte = Ascii.newline then byte :: fill tabs Ascii.tab else [byte]

theorem indent_append (tabs : Nat) (first second : Bytes) :
    indent tabs (first ++ second) = indent tabs first ++ indent tabs second :=
  List.flatMap_append

theorem indent_cons (tabs : Nat) {byte : UInt8} (other : byte ≠ Ascii.newline) (rest : Bytes) :
    indent tabs (byte :: rest) = byte :: indent tabs rest := by
  simp [indent, other]

theorem indent_of_not_mem (tabs : Nat) {text : Bytes} (unbroken : Ascii.newline ∉ text) :
    indent tabs text = text := by
  induction text with
  | nil => rfl
  | cons byte rest ih =>
      rw [List.mem_cons, not_or] at unbroken
      rw [indent_cons tabs (Ne.symm unbroken.1), ih unbroken.2]

theorem indent_break (tabs : Nat) {mark : UInt8} (other : mark ≠ Ascii.newline) :
    indent tabs [mark, Ascii.newline] = [mark, Ascii.newline] ++ fill tabs Ascii.tab := by
  simp [indent, other]

theorem newline_not_mem_fill (count : Nat) : Ascii.newline ∉ fill count Ascii.tab := by
  intro mem
  cases List.eq_of_mem_replicate mem

theorem fill_add (first second : Nat) (byte : UInt8) :
    fill (first + second) byte = fill first byte ++ fill second byte :=
  List.replicate_append_replicate.symm

end Bytes

theorem Numeral.newline_not_mem_ofInt (number : Int) : Ascii.newline ∉ ofInt number := by
  intro mem
  rcases isDigit_or_minus_of_mem_ofInt mem with digit | minus
  · cases digit
  · cases minus

theorem Fraction.newline_not_mem_text (value : Fraction) : Ascii.newline ∉ value.text := by
  have middle : Ascii.newline ∉ utf8 " / " := by decide
  rw [Fraction.text]
  split
  next => exact Numeral.newline_not_mem_ofInt value.num
  next =>
    simp only [List.mem_append, not_or]
    exact ⟨⟨Numeral.newline_not_mem_ofInt value.num, middle⟩,
      Numeral.newline_not_mem_ofInt value.den⟩

namespace Value

theorem newline_not_mem_utf8EncodeChar {char : Char} (other : char.toNat ≠ Ascii.newline.toNat) :
    Ascii.newline ∉ String.utf8EncodeChar char := by
  intro mem
  rcases Utf8.toNat_of_mem_utf8EncodeChar mem with same | beyond
  · exact other same.symm
  · exact absurd beyond (by decide)

theorem newline_not_mem_quoteSegment (segment : Utf8.Segment) :
    Ascii.newline ∉ quoteSegment segment := by
  cases segment with
  | illFormed piece =>
      rw [quoteSegment]
      exact newline_not_mem_utf8EncodeChar (by decide)
  | scalar char =>
      rw [quoteSegment]
      split
      next => decide
      split
      next => decide
      split
      next => decide
      next other =>
        split
        next => decide
        next => exact newline_not_mem_utf8EncodeChar other

/-- No byte string breaks a line when it is quoted. -/
theorem newline_not_mem_quote (bytes : Bytes) : Ascii.newline ∉ quote bytes := by
  have inside : Ascii.newline ∉ (Utf8.segments bytes).flatMap quoteSegment := by
    rw [List.mem_flatMap]
    rintro ⟨segment, -, mem⟩
    exact newline_not_mem_quoteSegment segment mem
  simp only [quote, List.cons_append, List.mem_cons, List.mem_append, List.not_mem_nil, or_false,
    not_or]
  exact ⟨by decide, inside, by decide⟩

/-- The values that a list or a dictionary holds, in order. -/
def parts : Value → List Value
  | list items => items
  | dictionary ⟨entries⟩ => entries.map Prod.snd
  | _ => []

theorem sizeOf_lt_of_mem_parts {part value : Value} (mem : part ∈ value.parts) :
    sizeOf part < sizeOf value := by
  cases value with
  | list items =>
      have inside : sizeOf part < sizeOf items := List.sizeOf_lt_of_mem mem
      rw [list.sizeOf_spec]
      omega
  | dictionary dict =>
      obtain ⟨entries⟩ := dict
      obtain ⟨⟨key, held⟩, inside, rfl⟩ := List.mem_map.mp mem
      have smaller := List.sizeOf_lt_of_mem inside
      rw [Prod.mk.sizeOf_spec] at smaller
      rw [dictionary.sizeOf_spec, Dict.mk.sizeOf_spec]
      show sizeOf held < _
      omega
  | _ => cases mem

/-- What passes from the parts of a value to the value holds of every value. -/
@[elab_as_elim]
theorem parts_induction {holds : Value → Prop} (value : Value)
    (step : ∀ value, (∀ part ∈ value.parts, holds part) → holds value) : holds value :=
  step value fun part mem =>
    have := sizeOf_lt_of_mem_parts mem
    parts_induction part step
termination_by sizeOf value

/-- The items of a list behind the first, each behind a comma and a space. -/
def formatTail (depth : Nat) (items : List Value) : Bytes :=
  items.flatMap fun item => [Ascii.comma, Ascii.space] ++ item.formatAt depth

theorem formatTail_cons (depth : Nat) (item : Value) (rest : List Value) :
    formatTail depth (item :: rest) =
      [Ascii.comma, Ascii.space] ++ item.formatAt depth ++ formatTail depth rest :=
  List.flatMap_cons

theorem formatItems_cons (depth : Nat) (item : Value) (rest : List Value) :
    formatItems depth (item :: rest) = item.formatAt depth ++ formatTail depth rest := by
  induction rest generalizing item with
  | nil => exact (List.append_nil _).symm
  | cons next rest ih =>
      rw [formatItems, ih next]
      · simp [formatTail]
      · exact List.cons_ne_nil next rest

section Indentation

variable (depth more : Nat)

theorem formatTail_add {items : List Value}
    (each : ∀ item ∈ items, item.formatAt (depth + more) = (item.formatAt depth).indent more) :
    formatTail (depth + more) items = (formatTail depth items).indent more := by
  induction items with
  | nil => rfl
  | cons item rest ih =>
      have comma : Bytes.indent more [Ascii.comma, Ascii.space] = [Ascii.comma, Ascii.space] :=
        Bytes.indent_of_not_mem more (by decide)
      obtain ⟨first, others⟩ := List.forall_mem_cons.mp each
      rw [formatTail_cons, formatTail_cons, Bytes.indent_append, Bytes.indent_append, comma, first,
        ih others]

theorem formatItems_add {items : List Value}
    (each : ∀ item ∈ items, item.formatAt (depth + more) = (item.formatAt depth).indent more) :
    formatItems (depth + more) items = (formatItems depth items).indent more := by
  cases items with
  | nil => rfl
  | cons item rest =>
      obtain ⟨first, others⟩ := List.forall_mem_cons.mp each
      rw [formatItems_cons, formatItems_cons, first, formatTail_add depth more others,
        Bytes.indent_append]

/-- The tabs that are inserted behind a line feed stand before the next entry, or
before the closing brace. -/
theorem fill_append_indent_formatEntries {entries : List (Bytes × Value)}
    (each : ∀ entry ∈ entries,
      entry.2.formatAt (depth + 1 + more) = (entry.2.formatAt (depth + 1)).indent more) :
    Bytes.fill more Ascii.tab ++ (formatEntries depth entries).indent more =
      formatEntries (depth + more) entries ++ Bytes.fill more Ascii.tab := by
  induction entries with
  | nil => exact List.append_nil _
  | cons entry rest ih =>
      obtain ⟨key, value⟩ := entry
      obtain ⟨first, others⟩ := List.forall_mem_cons.mp each
      have later := ih others
      have deeper : depth + more + 1 = more + (depth + 1) := by omega
      have deeper' : more + (depth + 1) = depth + 1 + more := by omega
      have tabs := Bytes.indent_of_not_mem more (Bytes.newline_not_mem_fill (depth + 1))
      have quoted := Bytes.indent_of_not_mem more (newline_not_mem_quote key)
      have colon : Bytes.indent more [Ascii.colon, Ascii.space] = [Ascii.colon, Ascii.space] :=
        Bytes.indent_of_not_mem more (by decide)
      have comma : Bytes.indent more [Ascii.comma, Ascii.newline] =
          [Ascii.comma, Ascii.newline] ++ Bytes.fill more Ascii.tab :=
        Bytes.indent_break more (by decide)
      calc Bytes.fill more Ascii.tab ++ (formatEntries depth ((key, value) :: rest)).indent more
        _ = Bytes.fill more Ascii.tab ++ Bytes.fill (depth + 1) Ascii.tab ++ quote key ++
              [Ascii.colon, Ascii.space] ++ (value.formatAt (depth + 1)).indent more ++
              [Ascii.comma, Ascii.newline] ++
              (Bytes.fill more Ascii.tab ++ (formatEntries depth rest).indent more) := by
            rw [formatEntries]
            simp only [Bytes.indent_append, tabs, quoted, colon, comma, List.append_assoc]
        _ = Bytes.fill (depth + more + 1) Ascii.tab ++ quote key ++ [Ascii.colon, Ascii.space] ++
              value.formatAt (depth + more + 1) ++ [Ascii.comma, Ascii.newline] ++
              (formatEntries (depth + more) rest ++ Bytes.fill more Ascii.tab) := by
            rw [later, ← Bytes.fill_add, ← first, deeper, deeper']
        _ = formatEntries (depth + more) ((key, value) :: rest) ++ Bytes.fill more Ascii.tab := by
            rw [formatEntries]
            simp only [List.append_assoc]

end Indentation

/-- More depth is more tabs behind every line feed. -/
theorem formatAt_add (depth more : Nat) (value : Value) :
    value.formatAt (depth + more) = (value.formatAt depth).indent more := by
  induction value using parts_induction generalizing depth with
  | step value ih =>
    have scalar {text : Bytes} (unbroken : Ascii.newline ∉ text) : text = text.indent more :=
      (Bytes.indent_of_not_mem more unbroken).symm
    cases value with
    | number value =>
        rw [formatAt, formatAt]
        exact scalar value.newline_not_mem_text
    | string bytes =>
        rw [formatAt, formatAt]
        exact scalar (newline_not_mem_quote bytes)
    | null | closure function | foreign | nothing =>
        rw [formatAt, formatAt]
        exact scalar (by decide)
    | list items =>
        have each : ∀ item ∈ items, item.formatAt (depth + more) =
            (item.formatAt depth).indent more := fun item mem => ih item mem depth
        have inside := formatItems_add depth more each
        have closing : [Ascii.closeBracket] = Bytes.indent more [Ascii.closeBracket] :=
          scalar (by decide)
        rw [formatAt, formatAt, List.cons_append, List.cons_append,
          Bytes.indent_cons more (by decide), Bytes.indent_append, inside, ← closing]
    | dictionary dict =>
        obtain ⟨entries⟩ := dict
        have each : ∀ entry ∈ entries, entry.2.formatAt (depth + 1 + more) =
            (entry.2.formatAt (depth + 1)).indent more := fun entry mem =>
          ih entry.2 (List.mem_map_of_mem mem) (depth + 1)
        have inside := fill_append_indent_formatEntries depth more each
        have opening : Bytes.indent more [Ascii.openBrace, Ascii.newline] =
            [Ascii.openBrace, Ascii.newline] ++ Bytes.fill more Ascii.tab :=
          Bytes.indent_break more (by decide)
        have tabs := Bytes.indent_of_not_mem more (Bytes.newline_not_mem_fill depth)
        have closing : [Ascii.closeBrace] = Bytes.indent more [Ascii.closeBrace] :=
          scalar (by decide)
        rw [formatAt, formatAt, Bytes.indent_append, Bytes.indent_append, Bytes.indent_append,
          opening, tabs, ← closing, List.append_assoc _ (Bytes.fill more Ascii.tab), inside,
          Nat.add_comm depth more, Bytes.fill_add]
        simp only [List.append_assoc]

mutual

/-- How often the layout of the dictionaries in a value breaks a line: behind the
brace that opens a dictionary and behind each entry. -/
def lineBreaks : Value → Nat
  | list items => itemBreaks items
  | dictionary ⟨entries⟩ => entryBreaks entries + 1
  | _ => 0

/-- The line breaks in the items of a list. -/
def itemBreaks : List Value → Nat
  | [] => 0
  | item :: rest => item.lineBreaks + itemBreaks rest

/-- The line breaks in the entries of a dictionary and behind them. -/
def entryBreaks : List (Bytes × Value) → Nat
  | [] => 0
  | (_, value) :: rest => value.lineBreaks + 1 + entryBreaks rest

end

section Breaks

variable (depth : Nat)

theorem count_newline_formatTail {items : List Value}
    (each : ∀ item ∈ items, (item.formatAt depth).count Ascii.newline = item.lineBreaks) :
    (formatTail depth items).count Ascii.newline = itemBreaks items := by
  induction items with
  | nil => rfl
  | cons item rest ih =>
      have comma : List.count Ascii.newline [Ascii.comma, Ascii.space] = 0 := by decide
      obtain ⟨first, others⟩ := List.forall_mem_cons.mp each
      rw [formatTail_cons, List.count_append, List.count_append, comma, first, ih others,
        itemBreaks, Nat.zero_add]

theorem count_newline_formatItems {items : List Value}
    (each : ∀ item ∈ items, (item.formatAt depth).count Ascii.newline = item.lineBreaks) :
    (formatItems depth items).count Ascii.newline = itemBreaks items := by
  cases items with
  | nil => rfl
  | cons item rest =>
      obtain ⟨first, others⟩ := List.forall_mem_cons.mp each
      rw [formatItems_cons, List.count_append, first, count_newline_formatTail depth others,
        itemBreaks]

theorem count_newline_formatEntries {entries : List (Bytes × Value)}
    (each : ∀ entry ∈ entries,
      (entry.2.formatAt (depth + 1)).count Ascii.newline = entry.2.lineBreaks) :
    (formatEntries depth entries).count Ascii.newline = entryBreaks entries := by
  induction entries with
  | nil => rfl
  | cons entry rest ih =>
      obtain ⟨key, value⟩ := entry
      obtain ⟨first, others⟩ := List.forall_mem_cons.mp each
      have later := ih others
      have tabs := List.count_eq_zero_of_not_mem (Bytes.newline_not_mem_fill (depth + 1))
      have quoted := List.count_eq_zero_of_not_mem (newline_not_mem_quote key)
      have colon : List.count Ascii.newline [Ascii.colon, Ascii.space] = 0 := by decide
      have comma : List.count Ascii.newline [Ascii.comma, Ascii.newline] = 1 := by decide
      rw [formatEntries, entryBreaks]
      simp only [List.count_append, tabs, quoted, colon, first, comma, later, Nat.zero_add]

end Breaks

/-- A printed value breaks a line where the layout of a dictionary does, and
nowhere else. -/
theorem count_newline_formatAt (depth : Nat) (value : Value) :
    (value.formatAt depth).count Ascii.newline = value.lineBreaks := by
  induction value using parts_induction generalizing depth with
  | step value ih =>
    cases value with
    | number value =>
        rw [formatAt]
        exact List.count_eq_zero_of_not_mem value.newline_not_mem_text
    | string bytes =>
        rw [formatAt]
        exact List.count_eq_zero_of_not_mem (newline_not_mem_quote bytes)
    | null | closure function | foreign | nothing =>
        rw [formatAt]
        exact List.count_eq_zero_of_not_mem (by decide)
    | list items =>
        have each : ∀ item ∈ items, (item.formatAt depth).count Ascii.newline =
            item.lineBreaks := fun item mem => ih item mem depth
        have inside := count_newline_formatItems depth each
        rw [formatAt, lineBreaks, List.count_append, List.count_cons_of_ne (by decide), inside]
        rfl
    | dictionary dict =>
        obtain ⟨entries⟩ := dict
        have each : ∀ entry ∈ entries, (entry.2.formatAt (depth + 1)).count Ascii.newline =
            entry.2.lineBreaks := fun entry mem =>
          ih entry.2 (List.mem_map_of_mem mem) (depth + 1)
        have inside := count_newline_formatEntries depth each
        have tabs := List.count_eq_zero_of_not_mem (Bytes.newline_not_mem_fill depth)
        have opening : List.count Ascii.newline [Ascii.openBrace, Ascii.newline] = 1 := by decide
        have closing : List.count Ascii.newline [Ascii.closeBrace] = 0 := by decide
        rw [formatAt, lineBreaks, List.count_append, List.count_append, List.count_append, opening,
          inside, tabs, closing]
        omega

/-- Every value is printed inside dictionaries as it is outside of them, with one
tab for each of them inserted behind every line feed. The line feeds are those of
the layout, one for each dictionary and one for each of its entries; what is
written between quotes has none. -/
theorem formatAt_eq_indent (value : Value) (depth : Nat) :
    value.formatAt depth = (value.formatAt 0).indent depth ∧
      (value.formatAt depth).count Ascii.newline = value.lineBreaks ∧
      ∀ bytes, Ascii.newline ∉ quote bytes := by
  have deeper := formatAt_add 0 depth value
  rw [Nat.zero_add] at deeper
  exact ⟨deeper, count_newline_formatAt depth value, newline_not_mem_quote⟩

end Value

end Juxta
