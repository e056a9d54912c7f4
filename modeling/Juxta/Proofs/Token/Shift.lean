/-
# Scanning from another offset

Where a text starts matters only for the offsets of its tokens and of its error.
Moving the start moves every one of them by the same distance, and moves an
unfinished token along with them. White space ends whatever stands before it and
leaves nothing behind, so a text behind white space is scanned as if it stood
alone, only farther on.
-/

import Juxta.Proofs.Token.Scan

namespace Juxta

/-- A token that starts `distance` bytes farther on. -/
def Token.shift (distance : Nat) (token : Token) : Token :=
  { token with pos := token.pos + distance }

/-- An error about something that was opened `distance` bytes farther on. -/
def LexError.shift (distance : Nat) (error : LexError) : LexError :=
  { error with pos := error.pos + distance }

namespace Token

/-- An unfinished word or operator that starts farther on. -/
def Pending.shift (distance : Nat) (pending : Pending) : Pending :=
  { pending with start := pending.start + distance }

/-- An unfinished number that starts farther on. -/
def Figures.shift (distance : Nat) (figures : Figures) : Figures :=
  { figures with start := figures.start + distance }

/-- A mode in which everything that is unfinished starts farther on. -/
def Mode.shift (distance : Nat) : Mode → Mode
  | between => between
  | pending word => pending (word.shift distance)
  | comment start escaped interrupted =>
      comment (start + distance) escaped (interrupted.map (Pending.shift distance))
  | string literal => string { literal with start := literal.start + distance }
  | number figures => number (figures.shift distance)

/-- The tokens and the mode after a step or a run, both farther on. -/
def shiftResult (distance : Nat) (result : List Token × Mode) : List Token × Mode :=
  (result.1.map (shift distance), result.2.shift distance)

variable (distance : Nat)

theorem Pending.token_shift (pending : Pending) :
    (pending.shift distance).token = pending.token.shift distance := rfl

theorem Pending.flush_shift (word : Option Pending) :
    flush (word.map (Pending.shift distance)) = (flush word).map (Token.shift distance) := by
  cases word with
  | none => rfl
  | some pending => simp [flush, token_shift]

theorem Pending.extend_shift (isWord : Bool) (pos : Nat) (byte : UInt8) (word : Option Pending) :
    extend isWord (pos + distance) byte (word.map (Pending.shift distance)) =
      shiftResult distance (extend isWord pos byte word) := by
  cases word with
  | none => rfl
  | some current =>
      by_cases same : current.isWord = isWord
      · simp [extend, shiftResult, Mode.shift, Pending.shift, same]
      · simp [extend, shiftResult, Mode.shift, Pending.shift, Pending.token, Token.shift, same]

theorem stepPlain_shift (word : Option Pending) (pos : Nat) (byte : UInt8) :
    stepPlain (word.map (Pending.shift distance)) (pos + distance) byte =
      shiftResult distance (stepPlain word pos byte) := by
  have flushed := Pending.flush_shift distance word
  unfold stepPlain
  cases ByteClass.of byte with
  | hash => rfl
  | quote | blank | digit => simp [shiftResult, Mode.shift, Figures.shift, flushed]
  | bracket | special | null | infinity => simp [shiftResult, Mode.shift, Token.shift, flushed]
  | operator | word => exact Pending.extend_shift distance _ pos byte word

theorem Figures.token_shift (figures : Figures) :
    (figures.shift distance).token = figures.token.shift distance := rfl

theorem Figures.pending?_shift (figures : Figures) :
    (figures.shift distance).pending? = figures.pending?.map (Pending.shift distance) := by
  obtain ⟨start, reversed, pointed⟩ := figures
  have place : start + distance + (reversed.length - 1) =
      start + (reversed.length - 1) + distance := by omega
  have same : (Figures.mk (start + distance) reversed pointed).endsInPoint =
      (Figures.mk start reversed pointed).endsInPoint := rfl
  simp only [Figures.pending?, Figures.shift, same, place]
  split <;> rfl

theorem stepNumber_shift (figures : Figures) (pos : Nat) (byte : UInt8) :
    stepNumber (figures.shift distance) (pos + distance) byte =
      shiftResult distance (stepNumber figures pos byte) := by
  have same : (figures.shift distance).accepts byte = figures.accepts byte := rfl
  unfold stepNumber
  rw [same]
  by_cases accepted : figures.accepts byte
  · rw [if_pos accepted, if_pos accepted]
    rfl
  · rw [if_neg accepted, if_neg accepted, Figures.pending?_shift, stepPlain_shift,
      Figures.token_shift]
    rfl

theorem stepString_shift (literal : Literal) (byte : UInt8) :
    stepString { literal with start := literal.start + distance } byte =
      shiftResult distance (stepString literal byte) := by
  unfold stepString
  split
  · rfl
  · split
    · simp [shiftResult, Mode.shift, Token.shift]
    · split <;> rfl

theorem stepComment_shift (start : Nat) (escaped : Bool) (interrupted : Option Pending)
    (byte : UInt8) :
    stepComment (start + distance) escaped (interrupted.map (Pending.shift distance)) byte =
      (stepComment start escaped interrupted byte).shift distance := by
  unfold stepComment
  split
  · rfl
  · split
    · rfl
    · split
      · cases interrupted <;> rfl
      · rfl

/-- A byte farther on does the same farther on. -/
theorem Mode.step_shift (mode : Mode) (pos : Nat) (byte : UInt8) :
    (mode.shift distance).step (pos + distance) byte =
      shiftResult distance (mode.step pos byte) := by
  cases mode with
  | between => exact stepPlain_shift distance none pos byte
  | pending word => exact stepPlain_shift distance (some word) pos byte
  | comment start escaped interrupted =>
      rw [Mode.shift, Mode.step, stepComment_shift]
      rfl
  | string literal => exact stepString_shift distance literal byte
  | number figures => exact stepNumber_shift distance figures pos byte

/-- A text farther on does the same farther on. -/
theorem Mode.run_shift (mode : Mode) (pos : Nat) (source : Bytes) :
    (mode.shift distance).run (pos + distance) source =
      shiftResult distance (mode.run pos source) := by
  induction source generalizing mode pos with
  | nil => rfl
  | cons byte rest ih =>
      have place : pos + distance + 1 = pos + 1 + distance := by omega
      rw [Mode.run, Mode.run, step_shift, place, shiftResult, ih, shiftResult, shiftResult,
        List.map_append]

theorem Mode.finish_shift (mode : Mode) :
    (mode.shift distance).finish =
      match mode.finish with
      | .ok tokens => .ok (tokens.map (Token.shift distance))
      | .error error => .error (error.shift distance) := by
  cases mode with
  | between => rfl
  | pending word => simp [Mode.shift, finish, Pending.token_shift]
  | comment start escaped interrupted => rfl
  | string literal => rfl
  | number figures =>
      simp [Mode.shift, finish, Figures.token_shift, Figures.pending?_shift, Pending.flush_shift]

/-- What a text is scanned as at one offset, it is scanned as at every other. -/
theorem scanFrom_eq_shift (source : Bytes) :
    scanFrom distance source =
      match scan source with
      | .ok tokens => .ok (tokens.map (Token.shift distance))
      | .error error => .error (error.shift distance) := by
  have moved := Mode.run_shift distance .between 0 source
  rw [Nat.zero_add] at moved
  have start : Mode.between.shift distance = .between := rfl
  rw [start] at moved
  simp only [scanFrom, scan, moved, shiftResult, Mode.finish_shift]
  cases (Mode.between.run 0 source).2.finish with
  | error error => rfl
  | ok last => simp [Except.map]

theorem delimiterTokens_of_isBlankByte (pos : Nat) {byte : UInt8} (isBlank : isBlankByte byte) :
    delimiterTokens pos byte = some [] := by
  have blank : ∀ byte : UInt8, isBlankByte byte → ByteClass.of byte = .blank :=
    forall_byte (by decide +kernel)
  rw [delimiterTokens, blank byte isBlank]

/-- If a text can be scanned, then behind it and a white-space byte another text
is scanned as on its own, only farther on: its tokens follow those of the first
text, or its error is the error of the whole. -/
theorem scan_append_blank {first : Bytes} {tokens : List Token} (scanned : scan first = .ok tokens)
    {byte : UInt8} (isBlank : isBlankByte byte) (second : Bytes) :
    scan (first ++ byte :: second) =
      match scan second with
      | .ok later => .ok (tokens ++ later.map (Token.shift (first.length + 1)))
      | .error error => .error (error.shift (first.length + 1)) := by
  rw [scan_eq_scanFrom] at scanned
  have delimits := delimiterTokens_of_isBlankByte (0 + first.length) isBlank
  rw [scan_eq_scanFrom, scanFrom_append scanned delimits, Nat.zero_add, scanFrom_eq_shift]
  cases scan second with
  | error error => rfl
  | ok later => simp [Except.map]

theorem scan_append_blank_tab :
    let first := utf8 "ab#c#d+1."
    let tokens : List Token := [⟨.word, utf8 "abd", 0⟩, ⟨.operator, utf8 "+", 6⟩,
      ⟨.number ⟨1, 1⟩, utf8 "1", 7⟩, ⟨.operator, utf8 ".", 8⟩]
    scan first = .ok tokens ∧ isBlankByte Ascii.tab ∧
      scan (first ++ Ascii.tab :: utf8 "x \"y\"") =
        .ok (tokens ++ [⟨.word, utf8 "x", 10⟩, ⟨.string (utf8 "y"), utf8 "\"y\"", 12⟩]) ∧
      scan (first ++ Ascii.tab :: utf8 "x #y") = .error ⟨12, .comment⟩ := by
  intro first tokens
  have scanned : scan first = .ok tokens := by rfl
  have blank : isBlankByte Ascii.tab := by decide
  refine ⟨scanned, blank, ?_, ?_⟩
  · rw [scan_append_blank scanned blank]
    rfl
  · rw [scan_append_blank scanned blank]
    rfl

end Token

end Juxta
