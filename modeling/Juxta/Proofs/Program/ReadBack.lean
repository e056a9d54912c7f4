/-
# Printed data reads back

The lexemes of printed data are read as its literal: the items of a list are
resolved at the commas and at the closing bracket, and each line of a dictionary
at its colon and its comma. Together with what the printed form spells and what
the literal denotes this closes the circle from a value through its printed form
back to the value.
-/

import Juxta.Program
import Juxta.Proofs.Tree.Reading
import Juxta.Proofs.Value.Literal

namespace Juxta

open Token (Lexeme)
open Juxta.Tree (Reading)

theorem Token.exists_of_map_lexeme {tokens : List Token} {kind : Kind} {text : Bytes}
    {rest : List Lexeme} (spelled : tokens.map lexeme = ⟨kind, text⟩ :: rest) :
    ∃ pos later, tokens = ⟨kind, text, pos⟩ :: later ∧ later.map lexeme = rest := by
  obtain ⟨⟨kind', text', pos⟩, later, rfl, same, rest⟩ := List.map_eq_cons_iff.mp spelled
  cases same
  exact ⟨pos, later, rfl, rest⟩

theorem Token.exists_of_map_lexeme_singleton {tokens : List Token} {kind : Kind} {text : Bytes}
    (spelled : tokens.map lexeme = [⟨kind, text⟩]) : ∃ pos, tokens = [⟨kind, text, pos⟩] := by
  obtain ⟨pos, later, rfl, ended⟩ := exists_of_map_lexeme spelled
  rw [List.map_eq_nil_iff.mp ended]
  exact ⟨pos, rfl⟩

theorem Tree.resolve_singleton (atEnd : Bool) (branch : Tree) :
    resolve atEnd [branch] = .ok (wrap branch) :=
  rfl

theorem Tree.resolve_quotient (atEnd : Bool) (first second : Fraction) (pos : Int) :
    resolve atEnd [number first, operator Operator.divide.text pos, number second] =
      .ok (wrap (combination Operator.divide.text (number first) (number second))) :=
  rfl

namespace Value

/-- Some tokens are read as branches that resolve to the literal of a value. -/
def ReadFrom (value : Value) (tokens : List Token) : Prop :=
  ∃ branches : List Tree,
    (∀ atEnd, Tree.resolve atEnd branches.reverse = .ok (.wrap value.literal)) ∧
      ∀ frames, (Reading.inside frames []).LeadsTo tokens (.inside frames branches)

theorem readFrom_of_leaf {value : Value} {tokens : List Token}
    (leads : ∀ frames, (Reading.inside frames []).LeadsTo tokens (.inside frames [value.literal])) :
    value.ReadFrom tokens :=
  ⟨[value.literal], fun atEnd => Tree.resolve_singleton atEnd value.literal, leads⟩

theorem readFrom_number {value : Fraction} {tokens : List Token}
    (spelled : tokens.map Token.lexeme = (number value).lexemes) :
    (number value).ReadFrom tokens := by
  rw [lexemes] at spelled
  by_cases whole : value.isWhole
  · rw [if_pos whole] at spelled
    obtain ⟨pos, rfl⟩ := Token.exists_of_map_lexeme_singleton spelled
    have same : Fraction.ofInt value.num = value := by
      obtain ⟨num, den⟩ := value
      obtain rfl : den = 1 := by simpa [Fraction.isWhole] using whole
      rfl
    apply readFrom_of_leaf
    intro frames
    rw [literal, if_pos whole, same]
    exact .cons rfl (Reading.leadsTo_nil _)
  · rw [if_neg whole] at spelled
    obtain ⟨first, others, rfl, slash⟩ := Token.exists_of_map_lexeme spelled
    obtain ⟨middle, others, rfl, denominator⟩ := Token.exists_of_map_lexeme slash
    obtain ⟨last, rfl⟩ := Token.exists_of_map_lexeme_singleton denominator
    refine ⟨[.number (Fraction.ofInt value.den), .operator Operator.divide.text middle,
      .number (Fraction.ofInt value.num)], ?_, ?_⟩
    · intro atEnd
      rw [literal, if_neg whole]
      exact Tree.resolve_quotient atEnd _ _ middle
    · intro frames
      exact .cons rfl (.cons rfl (.cons rfl (Reading.leadsTo_nil _)))

/-- After an item, a comma goes on with the next one. -/
theorem next_comma_item {item : Value} {branches : List Tree}
    (resolved : ∀ atEnd, Tree.resolve atEnd branches.reverse = .ok (.wrap item.literal))
    (elements before : List Tree) (frames : List Tree.Frame) (pos : Int) :
    (Reading.inside (.bracket (.items elements) before :: frames) branches).next
      ⟨.special, [Ascii.comma], pos⟩ =
      .goOn (.inside (.bracket (.items (.wrap item.literal :: elements)) before :: frames) []) := by
  rw [Reading.next_terminator rfl (resolved false)]
  rfl

theorem next_closeBracket_item {item : Value} {branches : List Tree}
    (resolved : ∀ atEnd, Tree.resolve atEnd branches.reverse = .ok (.wrap item.literal))
    (elements before : List Tree) (frames : List Tree.Frame) (pos : Int) :
    (Reading.inside (.bracket (.items elements) before :: frames) branches).next
      ⟨.bracket, [Ascii.closeBracket], pos⟩ =
      .goOn (.inside frames (.list (.wrap item.literal :: elements).reverse :: before)) := by
  rw [Reading.next_terminator rfl (resolved false)]
  rfl

/-- The items of a list are read up to the bracket that closes it. -/
theorem leadsTo_items {items : List Value}
    (each : ∀ item ∈ items, ∀ tokens, tokens.map Token.lexeme = item.lexemes →
      item.ReadFrom tokens)
    {tokens : List Token}
    (spelled : tokens.map Token.lexeme =
      lexemesOfItems items ++ [⟨.bracket, [Ascii.closeBracket]⟩])
    (elements before : List Tree) (frames : List Tree.Frame) :
    (Reading.inside (.bracket (.items elements) before :: frames) []).LeadsTo tokens
      (.inside frames (.list (elements.reverse ++ literalItems items) :: before)) := by
  induction items generalizing tokens elements with
  | nil =>
      obtain ⟨pos, rfl⟩ := Token.exists_of_map_lexeme_singleton spelled
      rw [literalItems, List.append_nil]
      exact .cons rfl (Reading.leadsTo_nil _)
  | cons item rest ih =>
      cases rest with
      | nil =>
          rw [lexemesOfItems] at spelled
          obtain ⟨front, back, rfl, itemSpelled, closing⟩ := List.map_eq_append_iff.mp spelled
          obtain ⟨pos, rfl⟩ := Token.exists_of_map_lexeme_singleton closing
          obtain ⟨branches, resolved, leads⟩ := each item (by simp) front itemSpelled
          have closes := next_closeBracket_item resolved elements before frames pos
          rw [List.reverse_cons] at closes
          exact (leads _).append (.cons closes (Reading.leadsTo_nil _))
      | cons second rest =>
          rw [lexemesOfItems, List.append_assoc, List.cons_append] at spelled
          · obtain ⟨front, back, rfl, itemSpelled, others⟩ := List.map_eq_append_iff.mp spelled
            obtain ⟨pos, later, rfl, laterSpelled⟩ := Token.exists_of_map_lexeme others
            obtain ⟨branches, resolved, leads⟩ := each item (by simp) front itemSpelled
            have goesOn := next_comma_item resolved elements before frames pos
            have later := ih (fun other mem => each other (by simp [mem])) laterSpelled
              (.wrap item.literal :: elements)
            rw [List.reverse_cons, List.append_assoc, List.singleton_append] at later
            exact (leads _).append (.cons goesOn later)
          · simp

/-- The lines of a dictionary are read up to the brace that closes it. -/
theorem leadsTo_entries {entries : List (Bytes × Value)}
    (each : ∀ entry ∈ entries, ∀ tokens, tokens.map Token.lexeme = entry.2.lexemes →
      entry.2.ReadFrom tokens)
    {tokens : List Token}
    (spelled : tokens.map Token.lexeme =
      lexemesOfEntries entries ++ [⟨.bracket, [Ascii.closeBrace]⟩])
    (done : List (Tree × Tree)) (before : List Tree) (frames : List Tree.Frame) :
    (Reading.inside (.bracket (.atKey done) before :: frames) []).LeadsTo tokens
      (.inside frames (.dictionary (done.reverse ++ literalEntries entries) :: before)) := by
  induction entries generalizing tokens done with
  | nil =>
      obtain ⟨pos, rfl⟩ := Token.exists_of_map_lexeme_singleton spelled
      rw [literalEntries, List.append_nil]
      exact .cons rfl (Reading.leadsTo_nil _)
  | cons entry rest ih =>
      obtain ⟨key, value⟩ := entry
      rw [lexemesOfEntries, List.cons_append, List.cons_append, List.append_assoc,
        List.cons_append] at spelled
      obtain ⟨keyPos, line, rfl, colon⟩ := Token.exists_of_map_lexeme spelled
      obtain ⟨colonPos, line, rfl, afterColon⟩ := Token.exists_of_map_lexeme colon
      obtain ⟨front, back, rfl, valueSpelled, comma⟩ := List.map_eq_append_iff.mp afterColon
      obtain ⟨commaPos, later, rfl, laterSpelled⟩ := Token.exists_of_map_lexeme comma
      obtain ⟨branches, resolved, leads⟩ := each (key, value) (by simp) front valueSpelled
      let keyTree : Tree := .string (quote key) key
      have goesOn : (Reading.inside (.bracket (.atValue done keyTree) before :: frames)
          branches).next ⟨.special, [Ascii.comma], commaPos⟩ =
          .goOn (.inside (.bracket (.atKey ((keyTree, .wrap value.literal) :: done)) before ::
            frames) []) := by
        rw [Reading.next_terminator rfl (resolved false)]
        rfl
      have later := ih (fun other mem => each other (by simp [mem])) laterSpelled
        ((keyTree, .wrap value.literal) :: done)
      rw [List.reverse_cons, List.append_assoc, List.singleton_append] at later
      exact .cons rfl (.cons rfl ((leads _).append (.cons goesOn later)))

/-- Tokens that spell data are read as its literal. -/
theorem readFrom_lexemes {value : Value} (data : value.IsData) :
    ∀ tokens, tokens.map Token.lexeme = value.lexemes → value.ReadFrom tokens := by
  induction data with
  | number canonical =>
      intro tokens spelled
      exact readFrom_number spelled
  | string valid =>
      intro tokens spelled
      rw [lexemes] at spelled
      obtain ⟨pos, rfl⟩ := Token.exists_of_map_lexeme_singleton spelled
      apply readFrom_of_leaf
      intro frames
      rw [literal]
      exact .cons rfl (Reading.leadsTo_nil _)
  | null =>
      intro tokens spelled
      rw [lexemes] at spelled
      obtain ⟨pos, rfl⟩ := Token.exists_of_map_lexeme_singleton spelled
      apply readFrom_of_leaf
      intro frames
      rw [literal]
      exact .cons rfl (Reading.leadsTo_nil _)
  | list each ih =>
      intro tokens spelled
      rw [lexemes] at spelled
      obtain ⟨pos, later, rfl, inside⟩ := Token.exists_of_map_lexeme spelled
      apply readFrom_of_leaf
      intro frames
      rw [literal]
      exact .cons rfl (leadsTo_items ih inside [] [] frames)
  | dictionary distinct keys values ih =>
      intro tokens spelled
      rw [lexemes] at spelled
      obtain ⟨pos, later, rfl, inside⟩ := Token.exists_of_map_lexeme spelled
      apply readFrom_of_leaf
      intro frames
      rw [literal]
      exact .cons rfl (leadsTo_entries ih inside [] [] frames)

theorem parse_of_readFrom {value : Value} {tokens : List Token} (readable : value.ReadFrom tokens) :
    Tree.parse tokens = .ok (.wrap value.literal) := by
  obtain ⟨branches, resolved, leads⟩ := readable
  have run := leads [] []
  rw [List.append_nil] at run
  rw [Tree.parse, Tree.readExpression, Tree.read_eq_run, run]
  simp [Reading.run, Reading.finish, Tree.settle, resolved, Except.map]

end Value

namespace Program

theorem read_format {value : Value} (data : value.IsData) :
    read value.format = .ok (.wrap value.literal) := by
  obtain ⟨tokens, scanned, spelled⟩ := Value.spells_formatAt data 0 0
  have parsed := Value.parse_of_readFrom (Value.readFrom_lexemes data tokens spelled)
  rw [read, Token.scan_eq_scanFrom, Value.format, scanned]
  simp [parsed]

/-- The printed form of data is a program that denotes it, in every scope and
with every host, which it leaves alone. -/
theorem interpret_format {σ : Type} {value : Value} (data : value.IsData)
    (environment : Environment) (host : Host σ) (scope : Scope Value) :
    interpret environment host scope value.format = pure value := by
  rw [interpret, read_format data]
  exact Value.evalWith_literal environment.look _ scope data

/-- A dictionary with a list of fractions, one of them without a value, and with
a key that needs an escape. -/
def nestedData : Value :=
  .dictionary ⟨[(utf8 "é\n", .list [.number ⟨3, 4⟩, .number ⟨1, 0⟩, .number ⟨0, 0⟩, .null]),
    (utf8 "k", .dictionary ⟨[]⟩)]⟩

theorem interpret_format_nestedData :
    nestedData.format =
        utf8 "\x7b\n\t\"é\\n\": [3 / 4, 1 / 0, 0 / 0, _],\n\t\"k\": \x7b\n\t\x7d,\n\x7d" ∧
      interpret Environment.initial (⟨fun _ _ => throw []⟩ : Host Unit) (Scope.atLevel 0)
        nestedData.format = pure nestedData := by
  have items : ∀ item ∈ [Value.number ⟨3, 4⟩, .number ⟨1, 0⟩, .number ⟨0, 0⟩, .null],
      item.IsData := by
    intro item mem
    simp only [List.mem_cons, List.not_mem_nil, or_false] at mem
    rcases mem with rfl | rfl | rfl | rfl
    · exact .number ⟨by decide, by decide, by decide⟩
    · exact .number ⟨by decide, by decide, by decide⟩
    · exact .number ⟨by decide, by decide, by decide⟩
    · exact .null
  have data : nestedData.IsData := by
    refine .dictionary (by decide) (by decide) ?_
    intro entry mem
    simp only [List.mem_cons, List.not_mem_nil, or_false] at mem
    rcases mem with rfl | rfl
    · exact .list items
    · exact .dictionary (by decide) (by simp) (by simp)
  exact ⟨by decide, interpret_format data Environment.initial _ (Scope.atLevel 0)⟩

end Program

end Juxta
