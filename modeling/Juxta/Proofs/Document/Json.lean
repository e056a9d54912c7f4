/-
# Reading numerals in JSON

A numeral is read as a JSON number up to the first byte that no number goes on
with: it has no leading zero that would end it early, and the mark behind it
neither lengthens it nor turns it into a decimal or an exponent. So a record of
integers is read as the texts that were written, each under its own name.
-/

import Juxta.Document.Json.Reader
import Juxta.Proofs.Text.Numeral

namespace Juxta.Json

/-- A text that does not go on with a number in front of it. -/
def EndsNumber (rest : Bytes) : Prop :=
  ∀ byte ∈ rest.head?, Ascii.isDigit byte = false ∧ byte ≠ Ascii.point ∧ Ascii.lower byte ≠ 0x65

section Numbers

variable {rest : Bytes}

theorem wholeLength_ofNat_append (number : Nat) (ends : EndsNumber rest) :
    wholeLength (Numeral.ofNat number ++ rest) = (Numeral.ofNat number).length := by
  rw [wholeLength]
  cases number with
  | zero => rfl
  | succ number =>
      obtain ⟨byte, later, digits⟩ := List.exists_cons_of_ne_nil (Numeral.ofNat_ne_nil (number + 1))
      have noZero : (Numeral.ofNat (number + 1) ++ rest).head? ≠ some Ascii.zero := by
        have first := Numeral.head?_ofNat_ne_zero (Nat.succ_pos number)
        rwa [digits] at first ⊢
      have noDigit : ∀ byte ∈ rest.head?, Ascii.isDigit byte = false :=
        fun byte head => (ends byte head).1
      rw [if_neg noZero, Numeral.takeWhile_isDigit_ofNat_append _ noDigit]

theorem fractionLength_of_endsNumber (ends : EndsNumber rest) : fractionLength rest = 0 := by
  have noPoint : rest.head? ≠ some Ascii.point := fun head => (ends _ head).2.1 rfl
  simp [fractionLength, noPoint]

theorem exponentLength_of_endsNumber (ends : EndsNumber rest) : exponentLength rest = 0 := by
  have noMark : rest.head?.any (fun byte => Ascii.lower byte = 0x65) = false := by
    rw [Option.any_eq_false]
    intro byte head
    simpa using (ends byte head).2.2
  simp [exponentLength, noMark]

/-- A numeral is taken as one number, up to where it ends. -/
theorem number?_ofInt_append (number : Int) (ends : EndsNumber rest) :
    number? (Numeral.ofInt number ++ rest) = some (Numeral.ofInt number, rest) := by
  have whole (number : Nat) := wholeLength_ofNat_append number ends
  have nonempty (number : Nat) := mt List.length_eq_zero_iff.mp (Numeral.ofNat_ne_nil number)
  have fraction := fractionLength_of_endsNumber ends
  have exponent := exponentLength_of_endsNumber ends
  cases number with
  | ofNat number =>
      have noSign : (Numeral.ofNat number ++ rest).head? ≠ some Ascii.minus := by
        obtain ⟨byte, later, digits⟩ := List.exists_cons_of_ne_nil (Numeral.ofNat_ne_nil number)
        have isDigit : ∀ byte ∈ Numeral.ofNat number, Ascii.isDigit byte :=
          fun _ => Numeral.isDigit_of_mem_ofNat
        rw [digits] at isDigit ⊢
        rintro ⟨⟩
        cases isDigit Ascii.minus List.mem_cons_self
      rw [number?, Numeral.ofInt]
      simp only [noSign, ↓reduceIte, List.drop_zero, Nat.zero_add, whole, List.drop_left, fraction,
        Nat.add_zero, exponent, nonempty, List.take_left]
  | negSucc number =>
      simp [number?, Numeral.ofInt, whole, nonempty, fraction, exponent, Nat.add_comm 1]

end Numbers

section Members

variable {rest : Bytes}

/-- Bytes that stand for themselves in a string. -/
def isPlain (byte : UInt8) : Bool :=
  byte != Ascii.quote && !decide (byte < 0x20) && byte != Ascii.backslash

theorem stringBody?_of_isPlain {content : Bytes} (plain : content.all isPlain) :
    stringBody? (content ++ Ascii.quote :: rest) = some (content, rest) := by
  induction content with
  | nil =>
      rw [List.nil_append, stringBody?.eq_def]
      exact if_pos rfl
  | cons byte later ih =>
      rw [List.all_cons, Bool.and_eq_true] at plain
      have inside := ih plain.2
      obtain ⟨noQuote, noControl, noBackslash⟩ : byte ≠ Ascii.quote ∧ ¬ byte < 0x20 ∧
          byte ≠ Ascii.backslash := by
        simpa [isPlain, and_assoc] using plain.1
      rw [List.cons_append, stringBody?.eq_def]
      simp only [if_neg noQuote, if_neg noControl, if_neg noBackslash, inside, Option.map_some]

/-- Marks that start something other than a number, or nothing. -/
def otherStarts : Bytes :=
  [Ascii.space, Ascii.tab, Ascii.carriageReturn, Ascii.newline, Ascii.openBracket,
    Ascii.openBrace, Ascii.quote, 0x6e, 0x74, 0x66]

theorem value?_of_start (fuel : Nat) {byte : UInt8}
    (start : Ascii.isDigit byte ∨ byte = Ascii.minus) (later : Bytes) :
    value? (fuel + 1) (byte :: later) =
      (number? (byte :: later)).map fun taken => (number taken.1, taken.2) := by
  have others : ∀ mark ∈ otherStarts, byte ≠ mark := Numeral.ne_of_isDigit_or_minus start rfl
  simp only [otherStarts, List.forall_mem_cons] at others
  obtain ⟨noSpace, noTab, noReturn, noNewline, noBracket, noBrace, noQuote, noNull, noTrue,
    noFalse, -⟩ := others
  have skipped : skipBlank (byte :: later) = byte :: later := by
    rw [skipBlank, List.dropWhile_cons_of_neg (by simp [noSpace, noTab, noReturn, noNewline])]
  simp only [value?, skipped, scalar?, if_neg noBracket, if_neg noBrace, if_neg noQuote,
    if_neg noNull, if_neg noTrue, if_neg noFalse]

theorem value?_ofInt_append (fuel : Nat) (number : Int) (ends : EndsNumber rest) :
    value? (fuel + 1) (Numeral.ofInt number ++ rest) =
      some (.number (Numeral.ofInt number), rest) := by
  have taken := number?_ofInt_append number ends
  obtain ⟨byte, later, numeral⟩ := List.exists_cons_of_ne_nil (Numeral.ofInt_ne_nil number)
  have start : byte ∈ Numeral.ofInt number := by simp [numeral]
  rw [numeral, List.cons_append] at taken ⊢
  rw [value?_of_start fuel (Numeral.isDigit_or_minus_of_mem_ofInt start), taken]
  rfl

/-- A member that holds a numeral, with a comma or the closing brace behind it. -/
def numeralMember (name : Bytes) (number : Int) (mark : UInt8) (rest : Bytes) : Bytes :=
  Ascii.quote :: (name ++ Ascii.quote :: Ascii.colon :: (Numeral.ofInt number ++ mark :: rest))

theorem members?_numeralMember (fuel : Nat) {name : Bytes} (plain : name.all isPlain)
    (number : Int) {mark : UInt8} (isMark : mark = Ascii.comma ∨ mark = Ascii.closeBrace) :
    members? (fuel + 2) (numeralMember name number mark rest) =
      if mark = Ascii.comma then
        (members? (fuel + 1) rest).map fun taken =>
          ((name, .number (Numeral.ofInt number)) :: taken.1, taken.2)
      else some ([(name, .number (Numeral.ofInt number))], rest) := by
  have opened (later : Bytes) : mark? [Ascii.quote] (Ascii.quote :: later) =
      some (Ascii.quote, later) := rfl
  have divided (later : Bytes) : mark? [Ascii.colon] (Ascii.colon :: later) =
      some (Ascii.colon, later) := rfl
  have ends : EndsNumber (mark :: rest) := by
    rintro byte ⟨⟩
    rcases isMark with rfl | rfl <;> decide
  have ended : mark? [Ascii.comma, Ascii.closeBrace] (mark :: rest) = some (mark, rest) := by
    rcases isMark with rfl | rfl <;> rfl
  rw [members?, numeralMember]
  simp only [opened, Option.bind_eq_bind, Option.bind_some, stringBody?_of_isPlain plain, divided,
    value?_ofInt_append fuel number ends, ended, Option.pure_def, Option.map_eq_bind]
  rfl

end Members

/-- The text of a record of two integers is read as that record. -/
theorem read?_numeralMembers {first second : Bytes} (plain : first.all isPlain)
    (plain' : second.all isPlain) (number number' : Int) :
    read? (Ascii.openBrace :: numeralMember first number Ascii.comma
      (numeralMember second number' Ascii.closeBrace [])) =
      some (object [(first, .number (Numeral.ofInt number)),
        (second, .number (Numeral.ofInt number'))]) := by
  generalize inside : numeralMember first number Ascii.comma
    (numeralMember second number' Ascii.closeBrace []) = text
  have members (fuel : Nat) : members? (fuel + 3) text =
      some ([(first, .number (Numeral.ofInt number)),
        (second, .number (Numeral.ofInt number'))], []) := by
    rw [← inside, members?_numeralMember _ plain _ (.inl rfl), if_pos rfl,
      members?_numeralMember _ plain' _ (.inr rfl)]
    rfl
  have opened : mark? [Ascii.closeBrace] text = none := by
    rw [← inside]
    rfl
  have value (fuel : Nat) : value? (fuel + 4) (Ascii.openBrace :: text) =
      some (object [(first, .number (Numeral.ofInt number)),
        (second, .number (Numeral.ofInt number'))], []) := by
    have skipped : skipBlank (Ascii.openBrace :: text) = Ascii.openBrace :: text := rfl
    have noBracket : Ascii.openBrace ≠ Ascii.openBracket := by decide
    simp [value?, skipped, noBracket, opened, members]
  have enough : 2 * (Ascii.openBrace :: text).length + 2 = 2 * text.length + 4 := by
    rw [List.length_cons]
    omega
  rw [read?, enough, value]
  rfl

end Juxta.Json
