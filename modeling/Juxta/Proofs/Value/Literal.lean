/-
# Data and its literals

Data is made of numbers, UTF-8 strings, null, lists and dictionaries. Its
printed form spells a fixed sequence of lexemes at every depth of indentation,
and there is a tree, its literal, that evaluates to it in every scope without
calling anything. A fraction that is not whole is written as a quotient, and
the division gives it back because it is in lowest terms.
-/

import Juxta.Eval.Basic
import Juxta.Proofs.Token.Spelling

namespace Juxta

/-- The fractions that literals denote: no sign, and in lowest terms. -/
structure Fraction.IsCanonical (number : Fraction) : Prop where
  num_nonneg : 0 ≤ number.num
  den_nonneg : 0 ≤ number.den
  lowest : number.IsLowest

namespace Value

/-- Values without functions in them and without values of the host. The numbers, the
strings and the keys of one dictionary have given properties, and the keys have that of
the strings too. -/
inductive IsDataOf (numbers : Fraction → Prop) (strings : Bytes → Prop)
    (keys : List Bytes → Prop) : Value → Prop
  | number {value : Fraction} (holds : numbers value) : IsDataOf numbers strings keys (number value)
  | string {bytes : Bytes} (holds : strings bytes) : IsDataOf numbers strings keys (string bytes)
  | null : IsDataOf numbers strings keys null
  | list {items : List Value} (each : ∀ item ∈ items, IsDataOf numbers strings keys item) :
      IsDataOf numbers strings keys (list items)
  | dictionary {entries : List (Bytes × Value)} (together : keys (entries.map Prod.fst))
      (each : ∀ entry ∈ entries, strings entry.1)
      (values : ∀ entry ∈ entries, IsDataOf numbers strings keys entry.2) :
      IsDataOf numbers strings keys (dictionary ⟨entries⟩)

/-- Values that are built from canonical numbers, UTF-8 strings and null. The
keys of a dictionary are distinct. -/
abbrev IsData : Value → Prop := IsDataOf Fraction.IsCanonical (Utf8.isValid ·) List.Nodup

/-- Values that are built from any numbers, strings with a property and null. -/
abbrev IsDataOver (strings : Bytes → Prop) : Value → Prop :=
  IsDataOf (fun _ => True) strings (fun _ => True)

mutual

/-- The tree that a printed value is read as. Values that are no data have none. -/
def literal : Value → Tree
  | number value =>
      if value.isWhole then .number value
      else .combination Operator.divide.text (.number (Fraction.ofInt value.num))
        (.number (Fraction.ofInt value.den))
  | string bytes => .string (quote bytes) bytes
  | null => .null
  | list items => .list (literalItems items)
  | dictionary ⟨entries⟩ => .dictionary (literalEntries entries)
  | closure _ | foreign | nothing => .hole

/-- The elements of a list literal. -/
def literalItems : List Value → List Tree
  | [] => []
  | item :: rest => .wrap item.literal :: literalItems rest

/-- The entries of a dictionary literal. -/
def literalEntries : List (Bytes × Value) → List (Tree × Tree)
  | [] => []
  | (key, value) :: rest =>
      (.string (quote key) key, .wrap value.literal) :: literalEntries rest

end

open Token (Lexeme Spells)

/-- The lexeme of a numeral. -/
def numeralLexeme (number : Int) : Lexeme :=
  ⟨.number (Fraction.ofInt number), Numeral.ofInt number⟩

/-- The lexeme of a quoted string. -/
def stringLexeme (bytes : Bytes) : Lexeme := ⟨.string bytes, quote bytes⟩

mutual

/-- The lexemes that printed data spells. -/
def lexemes : Value → List Lexeme
  | number value =>
      if value.isWhole then [numeralLexeme value.num]
      else [numeralLexeme value.num, ⟨.operator, Operator.divide.text⟩, numeralLexeme value.den]
  | string bytes => [stringLexeme bytes]
  | null => [⟨.null, [Ascii.underscore]⟩]
  | list items =>
      ⟨.bracket, [Ascii.openBracket]⟩ ::
        (lexemesOfItems items ++ [⟨.bracket, [Ascii.closeBracket]⟩])
  | dictionary ⟨entries⟩ =>
      ⟨.bracket, [Ascii.openBrace]⟩ ::
        (lexemesOfEntries entries ++ [⟨.bracket, [Ascii.closeBrace]⟩])
  | closure _ | foreign | nothing => []

/-- The lexemes between the brackets of a list. -/
def lexemesOfItems : List Value → List Lexeme
  | [] => []
  | [last] => last.lexemes
  | item :: rest => item.lexemes ++ ⟨.special, [Ascii.comma]⟩ :: lexemesOfItems rest

/-- The lexemes between the braces of a dictionary. -/
def lexemesOfEntries : List (Bytes × Value) → List Lexeme
  | [] => []
  | (key, value) :: rest =>
      stringLexeme key :: ⟨.special, [Ascii.colon]⟩ ::
        (value.lexemes ++ ⟨.special, [Ascii.comma]⟩ :: lexemesOfEntries rest)

end

theorem spells_numeral {number : Int} (nonneg : 0 ≤ number) :
    Spells (Numeral.ofInt number) [numeralLexeme number] := by
  obtain ⟨natural, rfl⟩ := Int.eq_ofNat_of_zero_le nonneg
  exact Token.spells_ofNat natural

theorem spells_text {value : Fraction} (canonical : value.IsCanonical) :
    Spells value.text (number value).lexemes := by
  have numerator := spells_numeral canonical.num_nonneg
  have denominator := spells_numeral canonical.den_nonneg
  rw [Fraction.text, lexemes]
  by_cases whole : value.isWhole
  · rw [if_pos whole, if_pos whole]
    exact numerator
  · rw [if_neg whole, if_neg whole]
    have quotient := numerator.append_blank Ascii.space rfl
      (Token.spells_slash.append_blank Ascii.space rfl denominator)
    have slash : Operator.divide.text = [Ascii.slash] := rfl
    have middle : utf8 " / " = [Ascii.space, Ascii.slash, Ascii.space] := rfl
    simpa [slash, middle] using quotient

theorem spells_string {bytes : Bytes} (valid : Utf8.isValid bytes) :
    Spells (quote bytes) [stringLexeme bytes] := by
  have spelled := Token.spells_quote bytes
  rwa [Utf8.repaired_of_isValid valid] at spelled

theorem spells_formatItems {depth : Nat} {items : List Value}
    (each : ∀ item ∈ items, Spells (item.formatAt depth) item.lexemes) :
    Spells (formatItems depth items) (lexemesOfItems items) := by
  induction items with
  | nil => exact Token.spells_nil
  | cons item rest ih =>
      have spelled := each item (by simp)
      have later := ih fun other mem => each other (by simp [mem])
      cases rest with
      | nil => exact spelled
      | cons next rest =>
          have separated := spelled.append_special Ascii.comma rfl
            (Token.spells_nil.append_blank Ascii.space rfl later)
          rw [formatItems, lexemesOfItems]
          · simpa using separated
          · simp
          · simp

theorem spells_formatEntries {depth : Nat} {entries : List (Bytes × Value)}
    (keys : ∀ entry ∈ entries, Utf8.isValid entry.1)
    (values : ∀ entry ∈ entries, Spells (entry.2.formatAt (depth + 1)) entry.2.lexemes)
    {rest : Bytes} {lexemes : List Lexeme} (later : Spells rest lexemes) :
    Spells (formatEntries depth entries ++ rest) (lexemesOfEntries entries ++ lexemes) := by
  induction entries with
  | nil => exact later
  | cons entry others ih =>
      obtain ⟨key, value⟩ := entry
      have line := ih (fun other mem => keys other (by simp [mem]))
        (fun other mem => values other (by simp [mem]))
      have ending := (values (key, value) (by simp)).append_special Ascii.comma rfl
        (Token.spells_nil.append_blank Ascii.newline rfl line)
      have start := (spells_string (keys (key, value) (by simp))).append_special Ascii.colon rfl
        (Token.spells_nil.append_blank Ascii.space rfl ending)
      have spelled := start.fill_tab (depth + 1)
      rw [formatEntries, lexemesOfEntries]
      simpa using spelled

/-- Printed data spells its lexemes at every depth. -/
theorem spells_formatAt {value : Value} (data : value.IsData) :
    ∀ depth, Spells (value.formatAt depth) value.lexemes := by
  induction data with
  | number canonical =>
      intro depth
      rw [formatAt]
      exact spells_text canonical
  | string valid =>
      intro depth
      rw [formatAt, lexemes]
      exact spells_string valid
  | null =>
      intro depth
      rw [formatAt, lexemes]
      exact Token.spells_null
  | list each ih =>
      intro depth
      have items := spells_formatItems fun item mem => ih item mem depth
      have spelled := Token.spells_nil.append_bracket Ascii.openBracket rfl
        (items.append_bracket Ascii.closeBracket rfl Token.spells_nil)
      rw [formatAt, lexemes]
      simpa using spelled
  | dictionary distinct keys values ih =>
      intro depth
      have ending :=
        (Token.spells_nil.append_bracket Ascii.closeBrace rfl Token.spells_nil).fill_tab depth
      have entries := spells_formatEntries keys (fun entry mem => ih entry mem (depth + 1)) ending
      have spelled := Token.spells_nil.append_bracket Ascii.openBrace rfl
        (Token.spells_nil.append_blank Ascii.newline rfl entries)
      rw [formatAt, lexemes]
      simpa using spelled

end Value

/-- The quotient of two whole numbers is the fraction of them, if that is in lowest terms. -/
theorem Fraction.divide_ofInt {number : Fraction} (lowest : number.IsLowest) :
    (ofInt number.num).divide (ofInt number.den) = number := by
  have one : simplify 1 1 = (1, 1) := rfl
  simp [divide, multiply, inverse, ofInt, one, simplify_of_isLowest lowest]

theorem Dict.set_of_not_mem {α : Type} {entries : List (Bytes × α)} {key : Bytes}
    (absent : key ∉ entries.map Prod.fst) (value : α) :
    (Dict.mk entries).set key value = ⟨entries ++ [(key, value)]⟩ := by
  rw [Dict.set, Dict.mk.injEq]
  induction entries with
  | nil => rfl
  | cons entry rest ih =>
      rw [List.map_cons, List.mem_cons, not_or] at absent
      rw [Dict.setEntry, if_neg (Ne.symm absent.1), ih absent.2, List.cons_append]

namespace Value

variable {σ : Type} (look : Scope Value → Bytes → Run σ Value)
  (call : Closure Value → Value → Run σ Value)
  (scope : Scope Value)

theorem evalWith_literal_number {value : Fraction} (canonical : value.IsCanonical) :
    (number value).literal.evalWith look call scope = pure (number value) := by
  rw [literal]
  by_cases whole : value.isWhole
  · rw [if_pos whole, Tree.evalWith]
  · have quotient : Fraction.operate .divide (Fraction.ofInt value.num)
        (Fraction.ofInt value.den) = value := Fraction.divide_ofInt canonical.lowest
    have meaning : Operator.ofText? Operator.divide.text = some .divide := by decide
    rw [if_neg whole]
    simp [Tree.evalWith, meaning, Operator.apply, Operator.numeric, Run.ofEval, quotient]

theorem evalList_literalItems {items : List Value}
    (each : ∀ item ∈ items, item.literal.evalWith look call scope = pure item) :
    Tree.evalList look call scope (literalItems items) = pure items := by
  induction items with
  | nil => rw [literalItems, Tree.evalList]
  | cons item rest ih =>
      have first := each item (by simp)
      have later := ih fun other mem => each other (by simp [mem])
      rw [literalItems, Tree.evalList, Tree.wrap, Tree.evalWith, first, later, pure_bind, pure_bind]

/-- The entries of a dictionary literal are set one after the other, and no key
meets itself. -/
theorem evalEntries_literalEntries {entries : List (Bytes × Value)}
    (each : ∀ entry ∈ entries, entry.2.literal.evalWith look call scope = pure entry.2)
    {before : List (Bytes × Value)} (distinct : ((before ++ entries).map Prod.fst).Nodup) :
    Tree.evalEntries look call scope ⟨before⟩ (literalEntries entries) =
      pure ⟨before ++ entries⟩ := by
  induction entries generalizing before with
  | nil => rw [literalEntries, Tree.evalEntries, List.append_nil]
  | cons entry rest ih =>
      obtain ⟨key, value⟩ := entry
      have first : value.literal.evalWith look call scope = pure value :=
        each (key, value) (by simp)
      have absent : key ∉ before.map Prod.fst := by
        rw [List.map_append, List.nodup_append] at distinct
        intro mem
        exact distinct.2.2 key mem key (by simp) rfl
      have shifted : before ++ (key, value) :: rest = before ++ [(key, value)] ++ rest := by simp
      rw [shifted] at distinct ⊢
      have later := ih (fun other mem => each other (by simp [mem])) distinct
      rw [literalEntries, Tree.evalEntries]
      · simp only [Tree.evalWith, Tree.wrap, first, pure_bind, Dict.set_of_not_mem absent, later]
      · simp

/-- The literal of data denotes it in every scope, whatever calls do. -/
theorem evalWith_literal {value : Value} (data : value.IsData) :
    value.literal.evalWith look call scope = pure value := by
  induction data with
  | number canonical => exact evalWith_literal_number look call scope canonical
  | string valid => rw [literal, Tree.evalWith]
  | null => rw [literal, Tree.evalWith]
  | list each ih =>
      rw [literal, Tree.evalWith, evalList_literalItems look call scope ih, map_pure]
  | dictionary distinct keys values ih =>
      rw [literal, Tree.evalWith, Dict.empty,
        evalEntries_literalEntries look call scope ih (by simpa using distinct), map_pure]
      rfl

end Value

end Juxta
