/-
# How texts spell tokens

A lexeme is a token without its offset. A text spells some lexemes when it is
scanned as them wherever it starts. Texts on both sides of white space, a
bracket or a punctuation mark spell what they spell alone. A numeral spells one
number, and a quoted byte string spells one string, which is the byte string
itself unless there is ill-formed text to repair.
-/

import Juxta.Proofs.Fraction.LowestTerms
import Juxta.Proofs.Text.Numeral
import Juxta.Proofs.Text.Utf8
import Juxta.Proofs.Token.Scan
import Juxta.Value.Format
import Mathlib.Data.List.TakeWhile

namespace Juxta.Token

/-- The kind and the text of a token. -/
structure Lexeme where
  kind : Kind
  text : Bytes
  deriving DecidableEq, Repr

/-- A token without its offset. -/
def lexeme (token : Token) : Lexeme := ⟨token.kind, token.text⟩

/-- A text is scanned as the given lexemes wherever it starts. -/
def Spells (text : Bytes) (lexemes : List Lexeme) : Prop :=
  ∀ pos, ∃ tokens, scanFrom pos text = .ok tokens ∧ tokens.map lexeme = lexemes

theorem spells_nil : Spells [] [] := fun _ => ⟨[], rfl, rfl⟩

section Delimiters

variable {first second : Bytes} {lexemes lexemes' marks : List Lexeme}

theorem Spells.append_delimiter (spelled : Spells first lexemes) {byte : UInt8}
    (delimits : ∀ pos, ∃ tokens, delimiterTokens pos byte = some tokens ∧
      tokens.map lexeme = marks)
    (later : Spells second lexemes') :
    Spells (first ++ byte :: second) (lexemes ++ marks ++ lexemes') := by
  intro pos
  obtain ⟨tokens, scanned, rfl⟩ := spelled pos
  obtain ⟨between, delimited, rfl⟩ := delimits (pos + first.length)
  obtain ⟨tokens', scanned', rfl⟩ := later (pos + first.length + 1)
  refine ⟨tokens ++ between ++ tokens', ?_, by simp⟩
  rw [scanFrom_append scanned delimited, scanned']
  rfl

theorem Spells.append_blank (spelled : Spells first lexemes) (byte : UInt8)
    (isBlank : ByteClass.of byte = .blank) (later : Spells second lexemes') :
    Spells (first ++ byte :: second) (lexemes ++ lexemes') := by
  have delimits (pos : Nat) : ∃ tokens, delimiterTokens pos byte = some tokens ∧
      tokens.map lexeme = [] := ⟨[], by rw [delimiterTokens, isBlank], rfl⟩
  simpa using spelled.append_delimiter delimits later

theorem Spells.append_bracket (spelled : Spells first lexemes) (byte : UInt8)
    (isBracket : ByteClass.of byte = .bracket) (later : Spells second lexemes') :
    Spells (first ++ byte :: second) (lexemes ++ ⟨.bracket, [byte]⟩ :: lexemes') := by
  have delimits (pos : Nat) : ∃ tokens, delimiterTokens pos byte = some tokens ∧
      tokens.map lexeme = [⟨.bracket, [byte]⟩] :=
    ⟨[⟨.bracket, [byte], pos⟩], by rw [delimiterTokens, isBracket], rfl⟩
  simpa using spelled.append_delimiter delimits later

theorem Spells.append_special (spelled : Spells first lexemes) (byte : UInt8)
    (isSpecial : ByteClass.of byte = .special) (later : Spells second lexemes') :
    Spells (first ++ byte :: second) (lexemes ++ ⟨.special, [byte]⟩ :: lexemes') := by
  have delimits (pos : Nat) : ∃ tokens, delimiterTokens pos byte = some tokens ∧
      tokens.map lexeme = [⟨.special, [byte]⟩] :=
    ⟨[⟨.special, [byte], pos⟩], by rw [delimiterTokens, isSpecial], rfl⟩
  simpa using spelled.append_delimiter delimits later

theorem Spells.fill_tab (count : Nat) (spelled : Spells second lexemes') :
    Spells (Bytes.fill count Ascii.tab ++ second) lexemes' := by
  induction count with
  | zero => exact spelled
  | succ count ih => exact spells_nil.append_blank Ascii.tab rfl ih

end Delimiters

theorem spells_null : Spells [Ascii.underscore] [⟨.null, [Ascii.underscore]⟩] :=
  fun pos => ⟨[⟨.null, [Ascii.underscore], pos⟩], rfl, rfl⟩

theorem spells_slash : Spells [Ascii.slash] [⟨.operator, [Ascii.slash]⟩] :=
  fun pos => ⟨[⟨.operator, [Ascii.slash], pos⟩], rfl, rfl⟩

section Numerals

/-- An unfinished number goes on over digits. -/
theorem run_number_digits (start pos : Nat) (reversed : Bytes) (pointed : Bool) {digits : Bytes}
    (each : ∀ byte ∈ digits, Ascii.isDigit byte) :
    (Mode.number ⟨start, reversed, pointed⟩).run pos digits =
      ([], .number ⟨start, digits.reverse ++ reversed, pointed⟩) := by
  induction digits generalizing pos reversed with
  | nil => rfl
  | cons byte rest ih =>
      have digit := each byte (by simp)
      have step : (Mode.number ⟨start, reversed, pointed⟩).step pos byte =
          ([], .number ⟨start, byte :: reversed, pointed⟩) := by
        simp [Mode.step, stepNumber, Figures.accepts, digit, ne_point_of_isDigit digit]
      have later := ih (pos + 1) (byte :: reversed) fun other mem => each other (by simp [mem])
      rw [Mode.run, step, later]
      simp

theorem value_of_digits {digits : Bytes} (each : ∀ byte ∈ digits, Ascii.isDigit byte) :
    Figures.value digits = Fraction.ofInt (Numeral.digitsValue digits) := by
  have noPoint : digits.dropWhile (· != Ascii.point) = [] := by
    rw [List.dropWhile_eq_nil_iff]
    intro byte mem
    simpa using ne_point_of_isDigit (each byte mem)
  have all : digits.filter Ascii.isDigit = digits := List.filter_eq_self.mpr each
  have whole (value : Int) : Fraction.ofDecimal value 0 = Fraction.ofInt value := by
    have simplified := Fraction.simplify_of_isLowest (Fraction.isLowest_ofInt value)
    simp only [Fraction.ofInt] at simplified
    simp [Fraction.ofDecimal, Fraction.reduced, simplified, Fraction.ofInt]
  rw [Figures.value, noPoint, all]
  exact whole _

theorem finish_number {figures : Figures} (complete : figures.endsInPoint = false) :
    (Mode.number figures).finish =
      .ok [⟨.number (Figures.value figures.reversed.reverse), figures.reversed.reverse,
        figures.start⟩] := by
  simp [Mode.finish, Figures.token, Figures.pending?, complete, Pending.flush]

theorem endsInPoint_of_digits (start : Nat) (pointed : Bool) {digits : Bytes}
    (each : ∀ byte ∈ digits, Ascii.isDigit byte) :
    (Figures.mk start digits.reverse pointed).endsInPoint = false := by
  rw [Figures.endsInPoint, List.head?_reverse]
  cases last : digits.getLast? with
  | none => rfl
  | some final => simpa using ne_point_of_isDigit (each final (List.mem_of_getLast? last))

theorem spells_digits {digits : Bytes} (nonempty : digits ≠ [])
    (each : ∀ byte ∈ digits, Ascii.isDigit byte) :
    Spells digits [⟨.number (Fraction.ofInt (Numeral.digitsValue digits)), digits⟩] := by
  intro pos
  refine ⟨[⟨.number (Figures.value digits), digits, pos⟩], ?_, ?_⟩
  · obtain ⟨byte, rest, rfl⟩ := List.exists_cons_of_ne_nil nonempty
    have start : Mode.between.run pos [byte] = ([], .number ⟨pos, [byte], false⟩) := by
      rw [Mode.run, Mode.step, stepPlain, ByteClass.of_digit byte (each byte (by simp))]
      rfl
    have run : Mode.between.run pos (byte :: rest) =
        ([], .number ⟨pos, (byte :: rest).reverse, false⟩) := by
      rw [← List.singleton_append, Mode.run_append_of_quiet start, List.singleton_append,
        List.reverse_cons]
      exact run_number_digits _ _ _ _ fun other mem => each other (by simp [mem])
    have finished := finish_number (endsInPoint_of_digits pos false each)
    rw [List.reverse_reverse] at finished
    exact scanFrom_of_run run finished
  · rw [value_of_digits each]
    rfl

/-- The numeral of a natural number spells that number. -/
theorem spells_ofNat (number : Nat) :
    Spells (Numeral.ofNat number) [⟨.number (Fraction.ofInt number), Numeral.ofNat number⟩] := by
  have spelled := spells_digits (Numeral.ofNat_ne_nil number) fun _ => Numeral.isDigit_of_mem_ofNat
  rwa [Numeral.digitsValue_ofNat] at spelled

end Numerals

section Quotes

/-- Bytes that are neither quotes nor backslashes stand for themselves in a string. -/
theorem run_string_plain (start pos : Nat) (reversed decoded : Bytes) {bytes : Bytes}
    (plain : ∀ byte ∈ bytes, byte ≠ Ascii.quote ∧ byte ≠ Ascii.backslash) :
    (Mode.string ⟨start, reversed, decoded, false⟩).run pos bytes =
      ([], .string ⟨start, bytes.reverse ++ reversed, bytes.reverse ++ decoded, false⟩) := by
  induction bytes generalizing pos reversed decoded with
  | nil => rfl
  | cons byte rest ih =>
      obtain ⟨noQuote, noBackslash⟩ := plain byte (by simp)
      have step : (Mode.string ⟨start, reversed, decoded, false⟩).step pos byte =
          ([], .string ⟨start, byte :: reversed, byte :: decoded, false⟩) := by
        simp [Mode.step, stepString, noQuote, noBackslash]
      rw [Mode.run, step, ih _ _ _ fun other mem => plain other (by simp [mem])]
      simp

/-- A backslash and a byte stand for the byte that the backslash makes of it. -/
theorem run_string_escape (start pos : Nat) (reversed decoded : Bytes) (byte : UInt8) :
    (Mode.string ⟨start, reversed, decoded, false⟩).run pos [Ascii.backslash, byte] =
      ([], .string ⟨start, byte :: Ascii.backslash :: reversed, unescape byte :: decoded, false⟩) :=
  rfl

/-- A quoted segment stands for its character. -/
theorem run_string_quoteSegment (start pos : Nat) (reversed decoded : Bytes)
    (segment : Utf8.Segment) :
    (Mode.string ⟨start, reversed, decoded, false⟩).run pos (Value.quoteSegment segment) =
      ([], .string ⟨start, (Value.quoteSegment segment).reverse ++ reversed,
        (String.utf8EncodeChar segment.char).reverse ++ decoded, false⟩) := by
  have unescaped {char : Char} (noBackslash : char.toNat ≠ Ascii.backslash.toNat)
      (noQuote : char.toNat ≠ Ascii.quote.toNat) :
      ∀ byte ∈ String.utf8EncodeChar char, byte ≠ Ascii.quote ∧ byte ≠ Ascii.backslash := by
    intro byte mem
    rcases Utf8.toNat_of_mem_utf8EncodeChar mem with same | beyond
    · exact ⟨fun isQuote => noQuote (by rw [← same, isQuote]),
        fun isBackslash => noBackslash (by rw [← same, isBackslash])⟩
    · exact ⟨fun isQuote => absurd beyond (by rw [isQuote]; decide),
        fun isBackslash => absurd beyond (by rw [isBackslash]; decide)⟩
  cases segment with
  | illFormed piece =>
      rw [Value.quoteSegment, Utf8.Segment.char]
      exact run_string_plain start pos reversed decoded (unescaped (by decide) (by decide))
  | scalar char =>
      rw [Value.quoteSegment, Utf8.Segment.char]
      split
      next isBackslash =>
        obtain rfl : char = '\\' := Char.toNat_inj.mp isBackslash
        exact run_string_escape start pos reversed decoded Ascii.backslash
      next noBackslash =>
        split
        next isQuote =>
          obtain rfl : char = '"' := Char.toNat_inj.mp isQuote
          exact run_string_escape start pos reversed decoded Ascii.quote
        next noQuote =>
          split
          next isNewline =>
            obtain rfl : char = '\n' := Char.toNat_inj.mp isNewline
            exact run_string_escape start pos reversed decoded Ascii.letterN
          next =>
            split
            next isTab =>
              obtain rfl : char = '\t' := Char.toNat_inj.mp isTab
              exact run_string_escape start pos reversed decoded Ascii.letterT
            next =>
              exact run_string_plain start pos reversed decoded (unescaped noBackslash noQuote)

theorem run_string_quoteSegments (start pos : Nat) (reversed decoded : Bytes)
    (segments : List Utf8.Segment) :
    (Mode.string ⟨start, reversed, decoded, false⟩).run pos (segments.flatMap Value.quoteSegment) =
      ([], .string ⟨start, (segments.flatMap Value.quoteSegment).reverse ++ reversed,
        (Utf8.encode (segments.map Utf8.Segment.char)).reverse ++ decoded, false⟩) := by
  induction segments generalizing pos reversed decoded with
  | nil => rfl
  | cons segment rest ih =>
      rw [List.flatMap_cons,
        Mode.run_append_of_quiet (run_string_quoteSegment start pos reversed decoded segment), ih]
      simp [Utf8.encode]

/-- A quoted byte string is scanned as one string: the byte string, repaired. -/
theorem run_quote (pos : Nat) (bytes : Bytes) :
    Mode.between.run pos (Value.quote bytes) =
      ([⟨.string (Utf8.repaired bytes), Value.quote bytes, pos⟩], .between) := by
  have start : Mode.between.run pos [Ascii.quote] =
      ([], .string ⟨pos, [Ascii.quote], [], false⟩) := rfl
  have inside := run_string_quoteSegments pos (pos + 1) [Ascii.quote] [] (Utf8.segments bytes)
  rw [Value.quote, List.cons_append, ← List.singleton_append, Mode.run_append_of_quiet start,
    List.length_singleton, Mode.run_append_of_quiet inside]
  simp [Mode.run, Mode.step, stepString, Utf8.repaired]

theorem scanFrom_quote (pos : Nat) (bytes : Bytes) :
    scanFrom pos (Value.quote bytes) =
      .ok [⟨.string (Utf8.repaired bytes), Value.quote bytes, pos⟩] :=
  scanFrom_of_run (run_quote pos bytes) rfl

theorem spells_quote (bytes : Bytes) :
    Spells (Value.quote bytes) [⟨.string (Utf8.repaired bytes), Value.quote bytes⟩] :=
  fun pos => ⟨_, scanFrom_quote pos bytes, rfl⟩

end Quotes

end Juxta.Token
