/-
# Printed data is read in one way

Data is told apart by its printed form. A number ends where neither a digit nor
a blank follows, a quoted string at the first quote that no backslash takes along,
and a list or a dictionary at its bracket; the first byte says which of these a
value is. So a text that starts with printed data starts with that of no other
data, whatever stands between quotes and however deep the value is.
-/

import Juxta.Proofs.Value.Layout
import Juxta.Proofs.Value.Literal

namespace Juxta

namespace Numeral

/-- A text that does not lengthen a numeral in front of it. -/
def Ends (rest : Bytes) : Prop := ∀ byte ∈ rest.head?, Ascii.isDigit byte = false

variable {rest rest' : Bytes}

theorem ofNat_append_inj {first second : Nat} (ends : Ends rest) (ends' : Ends rest')
    (same : ofNat first ++ rest = ofNat second ++ rest') : first = second ∧ rest = rest' := by
  have digits := congrArg (List.takeWhile Ascii.isDigit) same
  rw [takeWhile_isDigit_ofNat_append first ends, takeWhile_isDigit_ofNat_append second ends']
    at digits
  have numbers := congrArg digitsValue digits
  rw [digitsValue_ofNat, digitsValue_ofNat] at numbers
  rw [numbers] at same
  exact ⟨numbers, List.append_cancel_left same⟩

theorem ofNat_append_ne_minus (number : Nat) (later : Bytes) :
    ofNat number ++ rest ≠ Ascii.minus :: later := by
  obtain ⟨byte, digits, numeral⟩ := List.exists_cons_of_ne_nil (ofNat_ne_nil number)
  have first : byte ∈ ofNat number := by simp [numeral]
  have digit : Ascii.isDigit byte := isDigit_of_mem_ofNat first
  rw [numeral]
  rintro ⟨⟩
  cases digit

theorem ofInt_append_inj {first second : Int} (ends : Ends rest) (ends' : Ends rest')
    (same : ofInt first ++ rest = ofInt second ++ rest') : first = second ∧ rest = rest' := by
  cases first with
  | ofNat first =>
      cases second with
      | ofNat second =>
          obtain ⟨numbers, rests⟩ := ofNat_append_inj ends ends' same
          exact ⟨congrArg Int.ofNat numbers, rests⟩
      | negSucc second => exact absurd same (ofNat_append_ne_minus first _)
  | negSucc first =>
      cases second with
      | ofNat second => exact absurd same.symm (ofNat_append_ne_minus second _)
      | negSucc second =>
          obtain ⟨numbers, rests⟩ := ofNat_append_inj ends ends' (List.cons.inj same).2
          exact ⟨congrArg Int.negSucc (Nat.succ.inj numbers), rests⟩

end Numeral

namespace Fraction

/-- A text that does not lengthen a printed number in front of it. -/
def Ends (rest : Bytes) : Prop :=
  ∀ byte ∈ rest.head?, Ascii.isDigit byte = false ∧ byte ≠ Ascii.space

/-- What is printed of a number behind its numerator. -/
def denominatorText (number : Fraction) : Bytes :=
  if number.isWhole then [] else utf8 " / " ++ Numeral.ofInt number.den

theorem text_eq (number : Fraction) :
    number.text = Numeral.ofInt number.num ++ number.denominatorText := by
  rw [text, denominatorText]
  split
  next => exact (List.append_nil _).symm
  next => exact List.append_assoc _ _ _

variable {rest rest' : Bytes}

theorem ends_denominatorText_append (number : Fraction) (ends : Ends rest) :
    Numeral.Ends (number.denominatorText ++ rest) := by
  rw [denominatorText]
  split
  next => exact fun byte head => (ends byte head).1
  next =>
    rintro byte ⟨⟩
    rfl

theorem denominatorText_append_inj {first second : Fraction} (ends : Ends rest) (ends' : Ends rest')
    (same : first.denominatorText ++ rest = second.denominatorText ++ rest') :
    first.den = second.den ∧ rest = rest' := by
  have noSlash {rest : Bytes} (ends : Ends rest) (later : Bytes) : rest ≠ utf8 " / " ++ later := by
    rintro rfl
    exact (ends Ascii.space rfl).2 rfl
  rw [denominatorText, denominatorText] at same
  by_cases whole : first.isWhole <;> by_cases whole' : second.isWhole
  · rw [if_pos whole, if_pos whole'] at same
    have one := beq_iff_eq.mp whole
    have one' := beq_iff_eq.mp whole'
    exact ⟨one.trans one'.symm, same⟩
  · rw [if_pos whole, if_neg whole', List.append_assoc] at same
    exact absurd same (noSlash ends _)
  · rw [if_neg whole, if_pos whole', List.append_assoc] at same
    exact absurd same.symm (noSlash ends' _)
  · rw [if_neg whole, if_neg whole', List.append_assoc, List.append_assoc] at same
    exact Numeral.ofInt_append_inj (fun byte head => (ends byte head).1)
      (fun byte head => (ends' byte head).1) (List.append_cancel_left same)

/-- Printed numbers are told apart, pair by pair. -/
theorem text_append_inj {first second : Fraction} (ends : Ends rest) (ends' : Ends rest')
    (same : first.text ++ rest = second.text ++ rest') : first = second ∧ rest = rest' := by
  rw [text_eq, text_eq, List.append_assoc, List.append_assoc] at same
  obtain ⟨nums, others⟩ := Numeral.ofInt_append_inj (ends_denominatorText_append first ends)
    (ends_denominatorText_append second ends') same
  obtain ⟨dens, rests⟩ := denominatorText_append_inj ends ends' others
  cases first
  cases second
  cases nums
  cases dens
  exact ⟨rfl, rests⟩

end Fraction

namespace Value

variable {rest rest' : Bytes}

/-- Quoted byte strings are told apart as far as they are not repaired: the
scanner ends both at the same quote. -/
theorem quote_append_inj {first second : Bytes}
    (same : quote first ++ rest = quote second ++ rest') :
    Utf8.repaired first = Utf8.repaired second ∧ rest = rest' := by
  have tokens := congrArg (fun text => (Token.Mode.between.run 0 text).1) same
  simp only [Token.Mode.run_append, Token.run_quote, List.singleton_append] at tokens
  obtain ⟨token, -⟩ := List.cons.inj tokens
  obtain ⟨contents, quotes, -⟩ := Token.mk.inj token
  rw [quotes] at same
  exact ⟨Token.Kind.string.inj contents, List.append_cancel_left same⟩

/-- The kind of the data whose printed form starts with a byte. -/
def kindOf? (byte : UInt8) : Option Kind :=
  if byte = Ascii.quote then some .string
  else if byte = Ascii.underscore then some .null
  else if byte = Ascii.openBracket then some .list
  else if byte = Ascii.openBrace then some .dictionary
  else if Ascii.isDigit byte || byte = Ascii.minus then some .number
  else none

theorem kindOf?_of_mem_ofInt {number : Int} {byte : UInt8} (mem : byte ∈ Numeral.ofInt number) :
    kindOf? byte = some .number := by
  have start := Numeral.isDigit_or_minus_of_mem_ofInt mem
  have differs : ∀ mark ∈ [Ascii.quote, Ascii.underscore, Ascii.openBracket, Ascii.openBrace],
      byte ≠ mark := Numeral.ne_of_isDigit_or_minus start rfl
  simp only [List.forall_mem_cons] at differs
  obtain ⟨noQuote, noUnderscore, noBracket, noBrace, -⟩ := differs
  rw [kindOf?, if_neg noQuote, if_neg noUnderscore, if_neg noBracket, if_neg noBrace, if_pos]
  simpa using start

theorem exists_formatAt_eq_cons {strings : Bytes → Prop} {value : Value}
    (data : value.IsDataOver strings) (depth : Nat) :
    ∃ byte later, value.formatAt depth = byte :: later ∧ kindOf? byte = some value.kind := by
  cases data with
  | @number number =>
      obtain ⟨byte, later, numeral⟩ :=
        List.exists_cons_of_ne_nil (Numeral.ofInt_ne_nil number.num)
      have first : byte ∈ Numeral.ofInt number.num := by simp [numeral]
      refine ⟨byte, later ++ number.denominatorText, ?_, kindOf?_of_mem_ofInt first⟩
      rw [formatAt, number.text_eq, numeral, List.cons_append]
  | string => exact ⟨Ascii.quote, _, by rw [formatAt, quote]; rfl, rfl⟩
  | null => exact ⟨Ascii.underscore, [], by rw [formatAt], rfl⟩
  | list => exact ⟨Ascii.openBracket, _, by rw [formatAt]; rfl, rfl⟩
  | dictionary => exact ⟨Ascii.openBrace, _, by rw [formatAt]; rfl, rfl⟩

/-- The first byte of printed data gives its kind away. -/
theorem kind_eq_of_formatAt_append_eq {strings : Bytes → Prop} {first second : Value}
    (data : first.IsDataOver strings) (data' : second.IsDataOver strings) {depth : Nat}
    (same : first.formatAt depth ++ rest = second.formatAt depth ++ rest') :
    first.kind = second.kind := by
  obtain ⟨byte, later, text, kind⟩ := exists_formatAt_eq_cons data depth
  obtain ⟨byte', later', text', kind'⟩ := exists_formatAt_eq_cons data' depth
  rw [text, text'] at same
  rw [(List.cons.inj same).1, kind'] at kind
  exact (Option.some.inj kind).symm

/-- UTF-8 data is told apart from a value where the two are printed at the start
of a text. -/
def ToldApart (value : Value) : Prop :=
  ∀ (other : Value) (depth : Nat) (rest rest' : Bytes), other.IsDataOver (Utf8.isValid ·) →
    Fraction.Ends rest → Fraction.Ends rest' →
    value.formatAt depth ++ rest = other.formatAt depth ++ rest' → value = other ∧ rest = rest'

theorem ends_cons {byte : UInt8} (noDigit : Ascii.isDigit byte = false)
    (noBlank : byte ≠ Ascii.space) (rest : Bytes) : Fraction.Ends (byte :: rest) := by
  rintro head ⟨⟩
  exact ⟨noDigit, noBlank⟩

/-- Behind the first item, a comma goes on with the next and a bracket ends the list. -/
theorem ends_formatTail_append (depth : Nat) (items : List Value) :
    Fraction.Ends (formatTail depth items ++ Ascii.closeBracket :: rest) := by
  cases items with
  | nil => exact ends_cons rfl (by decide) rest
  | cons item items => exact ends_cons rfl (by decide) _

theorem formatTail_append_inj {depth : Nat} {items items' : List Value}
    (each : ∀ item ∈ items, item.ToldApart)
    (data : ∀ item ∈ items', item.IsDataOver (Utf8.isValid ·))
    (same : formatTail depth items ++ Ascii.closeBracket :: rest =
      formatTail depth items' ++ Ascii.closeBracket :: rest') :
    items = items' ∧ rest = rest' := by
  induction items generalizing items' with
  | nil =>
      cases items' with
      | nil => exact ⟨rfl, (List.cons.inj same).2⟩
      | cons item' items' => cases same
  | cons item items ih =>
      cases items' with
      | nil => cases same
      | cons item' items' =>
          obtain ⟨apart, later⟩ := List.forall_mem_cons.mp each
          obtain ⟨isData, laterData⟩ := List.forall_mem_cons.mp data
          rw [formatTail_cons, formatTail_cons] at same
          simp only [List.append_assoc] at same
          obtain ⟨firsts, tails⟩ := apart item' depth _ _ isData
            (ends_formatTail_append depth items) (ends_formatTail_append depth items')
            (List.append_cancel_left same)
          obtain ⟨others, rests⟩ := ih later laterData tails
          exact ⟨congrArg₂ List.cons firsts others, rests⟩

theorem formatItems_append_inj {depth : Nat} {items items' : List Value}
    (each : ∀ item ∈ items, item.ToldApart)
    (own : ∀ item ∈ items, item.IsDataOver (Utf8.isValid ·))
    (data : ∀ item ∈ items', item.IsDataOver (Utf8.isValid ·))
    (same : formatItems depth items ++ Ascii.closeBracket :: rest =
      formatItems depth items' ++ Ascii.closeBracket :: rest') :
    items = items' ∧ rest = rest' := by
  have nonempty {item : Value} {later : List Value} (data : item.IsDataOver (Utf8.isValid ·))
      (rest rest' : Bytes) : Ascii.closeBracket :: rest ≠
        formatItems depth (item :: later) ++ rest' := by
    obtain ⟨byte, text, format, kind⟩ := exists_formatAt_eq_cons data depth
    rw [formatItems_cons, format]
    rintro ⟨⟩
    cases kind
  cases items with
  | nil =>
      cases items' with
      | nil => exact ⟨rfl, (List.cons.inj same).2⟩
      | cons item' items' => exact absurd same (nonempty (data item' List.mem_cons_self) _ _)
  | cons item items =>
      cases items' with
      | nil => exact absurd same.symm (nonempty (own item List.mem_cons_self) _ _)
      | cons item' items' =>
          obtain ⟨apart, later⟩ := List.forall_mem_cons.mp each
          obtain ⟨isData, laterData⟩ := List.forall_mem_cons.mp data
          rw [formatItems_cons, formatItems_cons, List.append_assoc, List.append_assoc] at same
          obtain ⟨firsts, tails⟩ := apart item' depth _ _ isData
            (ends_formatTail_append depth items) (ends_formatTail_append depth items') same
          obtain ⟨others, rests⟩ := formatTail_append_inj later laterData tails
          exact ⟨congrArg₂ List.cons firsts others, rests⟩

theorem formatEntries_append_inj {depth : Nat} {entries entries' : List (Bytes × Value)}
    (each : ∀ entry ∈ entries, entry.2.ToldApart)
    (keys : ∀ entry ∈ entries, Utf8.isValid entry.1)
    (keys' : ∀ entry ∈ entries', Utf8.isValid entry.1)
    (data : ∀ entry ∈ entries', entry.2.IsDataOver (Utf8.isValid ·))
    (same :
      formatEntries depth entries ++ (Bytes.fill depth Ascii.tab ++ Ascii.closeBrace :: rest) =
        formatEntries depth entries' ++ (Bytes.fill depth Ascii.tab ++ Ascii.closeBrace :: rest')) :
    entries = entries' ∧ rest = rest' := by
  -- One more tab starts another entry where a brace would end the dictionary.
  have nonempty {entry : Bytes × Value} {later : List (Bytes × Value)} (rest rest' : Bytes) :
      Bytes.fill depth Ascii.tab ++ Ascii.closeBrace :: rest ≠
        formatEntries depth (entry :: later) ++ rest' := by
    obtain ⟨key, value⟩ := entry
    intro same
    rw [formatEntries, Bytes.fill_add depth 1] at same
    simp only [List.append_assoc] at same
    cases List.append_cancel_left same
  induction entries generalizing entries' with
  | nil =>
      cases entries' with
      | nil => exact ⟨rfl, (List.cons.inj (List.append_cancel_left same)).2⟩
      | cons entry' entries' => exact absurd same (nonempty _ _)
  | cons entry entries ih =>
      cases entries' with
      | nil => exact absurd same.symm (nonempty _ _)
      | cons entry' entries' =>
          obtain ⟨key, value⟩ := entry
          obtain ⟨key', value'⟩ := entry'
          obtain ⟨apart, later⟩ := List.forall_mem_cons.mp each
          obtain ⟨isData, laterData⟩ := List.forall_mem_cons.mp data
          obtain ⟨valid, laterKeys⟩ := List.forall_mem_cons.mp keys
          obtain ⟨valid', laterKeys'⟩ := List.forall_mem_cons.mp keys'
          rw [formatEntries, formatEntries] at same
          simp only [List.append_assoc] at same
          obtain ⟨quotes, line⟩ := quote_append_inj (List.append_cancel_left same)
          rw [Utf8.repaired_of_isValid valid, Utf8.repaired_of_isValid valid'] at quotes
          obtain ⟨values, tails⟩ := apart value' (depth + 1) _ _ isData
            (ends_cons rfl (by decide) _) (ends_cons rfl (by decide) _)
            (List.append_cancel_left line)
          obtain ⟨others, rests⟩ := ih later laterKeys laterKeys' laterData
            (List.cons.inj (List.cons.inj tails).2).2
          exact ⟨congrArg₂ List.cons (Prod.ext quotes values) others, rests⟩

theorem toldApart_of_isDataOver {value : Value} (data : value.IsDataOver (Utf8.isValid ·)) :
    value.ToldApart := by
  induction data with
  | number holds =>
      intro other depth rest rest' data' ends ends' same
      have kinds := kind_eq_of_formatAt_append_eq (.number holds) data' same
      cases data' with
      | number holds' =>
          rw [formatAt, formatAt] at same
          obtain ⟨numbers, rests⟩ := Fraction.text_append_inj ends ends' same
          exact ⟨congrArg Value.number numbers, rests⟩
      | _ => cases kinds
  | string valid =>
      intro other depth rest rest' data' ends ends' same
      have kinds := kind_eq_of_formatAt_append_eq (.string valid) data' same
      cases data' with
      | string valid' =>
          rw [formatAt, formatAt] at same
          obtain ⟨quotes, rests⟩ := quote_append_inj same
          rw [Utf8.repaired_of_isValid valid, Utf8.repaired_of_isValid valid'] at quotes
          exact ⟨congrArg Value.string quotes, rests⟩
      | _ => cases kinds
  | null =>
      intro other depth rest rest' data' ends ends' same
      have kinds := kind_eq_of_formatAt_append_eq .null data' same
      cases data' with
      | null =>
          rw [formatAt] at same
          exact ⟨rfl, List.append_cancel_left same⟩
      | _ => cases kinds
  | list each ih =>
      intro other depth rest rest' data' ends ends' same
      have kinds := kind_eq_of_formatAt_append_eq (.list each) data' same
      cases data' with
      | list each' =>
          rw [formatAt, formatAt, List.append_assoc, List.append_assoc] at same
          obtain ⟨items, rests⟩ := formatItems_append_inj ih each each' (List.cons.inj same).2
          exact ⟨congrArg Value.list items, rests⟩
      | _ => cases kinds
  | dictionary together keys values ih =>
      intro other depth rest rest' data' ends ends' same
      have kinds := kind_eq_of_formatAt_append_eq (.dictionary together keys values) data' same
      cases data' with
      | dictionary _ keys' values' =>
          rw [formatAt, formatAt] at same
          simp only [List.append_assoc] at same
          obtain ⟨entries, rests⟩ := formatEntries_append_inj ih keys keys' values'
            (List.append_cancel_left same)
          exact ⟨by rw [entries], rests⟩
      | _ => cases kinds

/-- Two values that are made of any numbers, UTF-8 strings, null, lists and
dictionaries are the same if they are printed the same. -/
theorem format_eq_iff {first second : Value} (data : first.IsDataOver (Utf8.isValid ·))
    (data' : second.IsDataOver (Utf8.isValid ·)) :
    first.format = second.format ↔ first = second := by
  constructor
  · intro same
    have ends : Fraction.Ends [] := by
      rintro byte ⟨⟩
    have texts : first.formatAt 0 ++ [] = second.formatAt 0 ++ [] :=
      congrArg (· ++ []) same
    exact (toldApart_of_isDataOver data second 0 [] [] data' ends ends texts).1
  · exact congrArg format

/-- A string that looks like two items of a list, beside a number over zero, is not
printed as the two items. -/
theorem format_eq_iff_quotedComma :
    let joined : Value := .dictionary ⟨[(utf8 "é", .list [.string (utf8 "a\", \"b"),
      .number ⟨-2, 0⟩])]⟩
    let apart : Value := .dictionary ⟨[(utf8 "é", .list [.string (utf8 "a"), .string (utf8 "b"),
      .number ⟨-2, 0⟩])]⟩
    joined.format = utf8 "\x7b\n\t\"é\": [\"a\\\", \\\"b\", -2 / 0],\n\x7d" ∧
      joined.format ≠ apart.format := by
  intro joined apart
  have entry {items : List Value} (each : ∀ item ∈ items, item.IsDataOver (Utf8.isValid ·)) :
      (dictionary ⟨[(utf8 "é", .list items)]⟩).IsDataOver (Utf8.isValid ·) := by
    refine .dictionary trivial (by simp; decide) ?_
    rw [List.forall_mem_singleton]
    exact .list each
  have data : joined.IsDataOver (Utf8.isValid ·) := by
    apply entry
    simp only [List.forall_mem_cons, List.not_mem_nil, false_implies, implies_true, and_true]
    exact ⟨.string (by decide), .number trivial⟩
  have data' : apart.IsDataOver (Utf8.isValid ·) := by
    apply entry
    simp only [List.forall_mem_cons, List.not_mem_nil, false_implies, implies_true, and_true]
    exact ⟨.string (by decide), .string (by decide), .number trivial⟩
  refine ⟨by decide, fun same => ?_⟩
  have equal := (format_eq_iff data data').mp same
  simp [joined, apart] at equal

end Value

end Juxta
