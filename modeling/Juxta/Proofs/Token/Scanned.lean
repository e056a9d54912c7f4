/-
# What holds of every token that is scanned

The scanner makes a token of a finished word, operator, number or string, or of a
single byte. A property that all such tokens have holds of every token of a source
text.
-/

import Juxta.Token.Scan

namespace Juxta.Token

/-- All tokens that the scanner can make have a property. -/
structure HoldsOfScanned (holds : Token → Prop) : Prop where
  pending : ∀ word : Pending, holds word.token
  number : ∀ figures : Figures, holds figures.token
  string : ∀ (value text : Bytes) (pos : Nat), holds ⟨.string value, text, pos⟩
  bracket : ∀ (byte : UInt8) (pos : Nat), isBracketByte byte → holds ⟨.bracket, [byte], pos⟩
  special : ∀ (byte : UInt8) (pos : Nat), isSpecialByte byte → holds ⟨.special, [byte], pos⟩
  null : ∀ (byte : UInt8) (pos : Nat), holds ⟨.null, [byte], pos⟩
  infinity : ∀ (byte : UInt8) (pos : Nat), holds ⟨.number Fraction.infinity, [byte], pos⟩

theorem isBracketByte_of {byte : UInt8} (kind : ByteClass.of byte = .bracket) :
    isBracketByte byte := by
  grind [ByteClass.of]

theorem isSpecialByte_of {byte : UInt8} (kind : ByteClass.of byte = .special) :
    isSpecialByte byte := by
  grind [ByteClass.of]

namespace HoldsOfScanned

variable {holds : Token → Prop} (each : HoldsOfScanned holds)

include each

theorem flush (word : Option Pending) : ∀ token ∈ Pending.flush word, holds token := by
  cases word with
  | none => simp [Pending.flush]
  | some pending => simpa [Pending.flush] using each.pending pending

theorem extend (isWord : Bool) (pos : Nat) (byte : UInt8) (word : Option Pending) :
    ∀ token ∈ (Pending.extend isWord pos byte word).1, holds token := by
  cases word with
  | none => simp [Pending.extend]
  | some pending =>
      rw [Pending.extend]
      split
      · simp
      · simpa using each.pending pending

theorem stepPlain (word : Option Pending) (pos : Nat) (byte : UInt8) :
    ∀ token ∈ (stepPlain word pos byte).1, holds token := by
  have flushed := each.flush word
  have followed {mark : Token} (fits : holds mark) :
      ∀ token ∈ Pending.flush word ++ [mark], holds token := by
    rw [List.forall_mem_append]
    exact ⟨flushed, by simpa using fits⟩
  rw [Token.stepPlain]
  cases kind : ByteClass.of byte with
  | hash => simp
  | quote | blank | digit => exact flushed
  | bracket => exact followed (each.bracket byte pos (isBracketByte_of kind))
  | special => exact followed (each.special byte pos (isSpecialByte_of kind))
  | null => exact followed (each.null byte pos)
  | infinity => exact followed (each.infinity byte pos)
  | operator | word => exact each.extend _ pos byte word

theorem step (mode : Mode) (pos : Nat) (byte : UInt8) :
    ∀ token ∈ (mode.step pos byte).1, holds token := by
  cases mode with
  | between => exact each.stepPlain none pos byte
  | pending word => exact each.stepPlain (some word) pos byte
  | comment start escaped interrupted => simp [Mode.step]
  | string literal =>
      rw [Mode.step, stepString]
      split
      · simp
      · split
        · simpa using each.string _ _ _
        · split <;> simp
  | number figures =>
      rw [Mode.step, stepNumber]
      split
      · simp
      · rw [List.forall_mem_cons]
        exact ⟨each.number figures, each.stepPlain figures.pending? pos byte⟩

theorem run (mode : Mode) (pos : Nat) (source : Bytes) :
    ∀ token ∈ (mode.run pos source).1, holds token := by
  induction source generalizing mode pos with
  | nil => simp [Mode.run]
  | cons byte rest ih =>
      rw [Mode.run, List.forall_mem_append]
      exact ⟨each.step mode pos byte, ih _ _⟩

theorem finish {mode : Mode} {tokens : List Token} (finished : mode.finish = .ok tokens) :
    ∀ token ∈ tokens, holds token := by
  cases mode with
  | between =>
      cases finished
      simp
  | pending word =>
      cases finished
      simpa using each.pending word
  | number figures =>
      cases finished
      rw [List.forall_mem_cons]
      exact ⟨each.number figures, each.flush figures.pending?⟩
  | comment | string => cases finished

/-- The property holds of every token of a source text. -/
theorem scan {source : Bytes} {tokens : List Token} (scanned : Token.scan source = .ok tokens) :
    ∀ token ∈ tokens, holds token := by
  rw [Token.scan] at scanned
  cases finished : (Mode.between.run 0 source).2.finish with
  | error error => simp [finished, Except.map] at scanned
  | ok last =>
      obtain rfl : (Mode.between.run 0 source).1 ++ last = tokens := by
        simpa [finished, Except.map] using scanned
      rw [List.forall_mem_append]
      exact ⟨each.run .between 0 source, each.finish finished⟩

end HoldsOfScanned

/-- A token as the scanner makes it: it has an offset in the source text, and brackets
and marks are single bytes of their class. -/
structure IsGenuine (token : Token) : Prop where
  offset : 0 ≤ token.pos
  bracket : token.kind = .bracket → ∃ byte, isBracketByte byte ∧ token.text = [byte]
  special : token.kind = .special → ∃ byte, isSpecialByte byte ∧ token.text = [byte]

/-- A token that is neither a bracket nor a mark only has to have an offset. -/
theorem isGenuine_of_not_isPunctuation {token : Token} (offset : 0 ≤ token.pos)
    (plain : token.isPunctuation = false) : token.IsGenuine where
  offset := offset
  bracket kind := by simp [isPunctuation, kind] at plain
  special kind := by simp [isPunctuation, kind] at plain

theorem holdsOfScanned_isGenuine : HoldsOfScanned IsGenuine where
  pending word := by
    apply isGenuine_of_not_isPunctuation (Int.natCast_nonneg _)
    cases isWord : word.isWord <;> simp [Pending.token, isPunctuation, isWord]
  number figures := isGenuine_of_not_isPunctuation (Int.natCast_nonneg _) rfl
  string value text pos := isGenuine_of_not_isPunctuation (Int.natCast_nonneg _) rfl
  bracket byte pos isBracket :=
    ⟨Int.natCast_nonneg _, fun _ => ⟨byte, isBracket, rfl⟩, fun kind => Kind.noConfusion kind⟩
  special byte pos isSpecial :=
    ⟨Int.natCast_nonneg _, fun kind => Kind.noConfusion kind, fun _ => ⟨byte, isSpecial, rfl⟩⟩
  null byte pos := isGenuine_of_not_isPunctuation (Int.natCast_nonneg _) rfl
  infinity byte pos := isGenuine_of_not_isPunctuation (Int.natCast_nonneg _) rfl

end Juxta.Token
