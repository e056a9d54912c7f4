/-
# Scanning a text in pieces

A run of the scanner over two texts is a run over the first and then over the
second. White space, brackets and the other punctuation marks end whatever token
is unfinished, exactly as the end of the text does, and leave nothing behind. So
a text that can be scanned on its own is scanned in the same way before such a
byte.
-/

import Juxta.Proofs.Text.Bytes
import Juxta.Token.Scan

namespace Juxta.Token

theorem Mode.run_append (mode : Mode) (pos : Nat) (first second : Bytes) :
    mode.run pos (first ++ second) =
      let early := mode.run pos first
      let late := early.2.run (pos + first.length) second
      (early.1 ++ late.1, late.2) := by
  induction first generalizing mode pos with
  | nil => rfl
  | cons byte first ih =>
      have place : pos + 1 + first.length = pos + (first.length + 1) := by omega
      simp only [List.cons_append, run, ih, List.length_cons, place, List.append_assoc]

/-- A text that completes no token only leads from mode to mode. -/
theorem Mode.run_append_of_quiet {mode later : Mode} {pos : Nat} {first : Bytes}
    (quiet : mode.run pos first = ([], later)) (second : Bytes) :
    mode.run pos (first ++ second) = later.run (pos + first.length) second := by
  rw [run_append, quiet]
  rfl

/-- The tokens of a text that starts at an offset. -/
def scanFrom (pos : Nat) (source : Bytes) : Except LexError (List Token) :=
  let (tokens, mode) := Mode.between.run pos source
  mode.finish.map (tokens ++ ·)

theorem scan_eq_scanFrom (source : Bytes) : scan source = scanFrom 0 source := rfl

theorem scanFrom_of_run {pos : Nat} {source : Bytes} {tokens last : List Token} {mode : Mode}
    (run : Mode.between.run pos source = (tokens, mode)) (finished : mode.finish = .ok last) :
    scanFrom pos source = .ok (tokens ++ last) := by
  simp [scanFrom, run, finished, Except.map]

/-- The tokens that a delimiter makes of its own. All other bytes are no
delimiters. -/
def delimiterTokens (pos : Nat) (byte : UInt8) : Option (List Token) :=
  match ByteClass.of byte with
  | .blank => some []
  | .bracket => some [⟨.bracket, [byte], pos⟩]
  | .special => some [⟨.special, [byte], pos⟩]
  | _ => none

theorem ByteClass.of_digit : ∀ byte : UInt8, Ascii.isDigit byte → of byte = .digit :=
  forall_byte (by decide +kernel)

theorem ByteClass.isDigit_of : ∀ byte : UInt8, of byte = .digit → Ascii.isDigit byte :=
  forall_byte (by decide +kernel)

theorem ne_point_of_isDigit {byte : UInt8} (digit : Ascii.isDigit byte) : byte ≠ Ascii.point := by
  intro isPoint
  subst isPoint
  cases digit

/-- A number does not go on with a delimiter. -/
theorem Figures.accepts_delimiter {pos : Nat} {byte : UInt8} {marks : List Token}
    (delimits : delimiterTokens pos byte = some marks) (figures : Figures) :
    figures.accepts byte = false := by
  cases accepted : figures.accepts byte with
  | false => rfl
  | true =>
      -- Digits, underscores and points are of other classes.
      simp only [accepts, Bool.or_eq_true, decide_eq_true_eq, Bool.and_eq_true] at accepted
      rcases accepted with (digit | rfl) | ⟨rfl, _⟩
      · rw [delimiterTokens, ByteClass.of_digit byte digit] at delimits
        cases delimits
      · cases delimits
      · cases delimits

theorem stepPlain_delimiter {pos : Nat} {byte : UInt8} {marks : List Token}
    (delimits : delimiterTokens pos byte = some marks) (word : Option Pending) :
    stepPlain word pos byte = (Pending.flush word ++ marks, .between) := by
  unfold delimiterTokens at delimits
  unfold stepPlain
  split at delimits
  next same =>
    cases delimits
    simp [same]
  next same =>
    cases delimits
    simp [same]
  next same =>
    cases delimits
    simp [same]
  next => cases delimits

/-- A delimiter ends a token as the end of the text does. -/
theorem Mode.step_delimiter {mode : Mode} {tokens marks : List Token} {pos : Nat} {byte : UInt8}
    (finished : mode.finish = .ok tokens) (delimits : delimiterTokens pos byte = some marks) :
    mode.step pos byte = (tokens ++ marks, .between) := by
  cases mode with
  | between =>
      cases finished
      rw [step, stepPlain_delimiter delimits]
      rfl
  | pending word =>
      cases finished
      rw [step, stepPlain_delimiter delimits]
      rfl
  | comment start escaped interrupted => cases finished
  | string literal => cases finished
  | number figures =>
      cases finished
      rw [step, stepNumber, if_neg (by simp [Figures.accepts_delimiter delimits]),
        stepPlain_delimiter delimits]
      rfl

/-- A text that can be scanned on its own is scanned in the same way before a
delimiter, and the text behind the delimiter starts anew. -/
theorem scanFrom_append {pos : Nat} {first : Bytes} {tokens marks : List Token} {byte : UInt8}
    (scanned : scanFrom pos first = .ok tokens)
    (delimits : delimiterTokens (pos + first.length) byte = some marks) (second : Bytes) :
    scanFrom pos (first ++ byte :: second) =
      (scanFrom (pos + first.length + 1) second).map (tokens ++ marks ++ ·) := by
  unfold scanFrom at scanned ⊢
  cases finished : (Mode.between.run pos first).2.finish with
  | error error => simp [finished, Except.map] at scanned
  | ok late =>
      have same : (Mode.between.run pos first).1 ++ late = tokens := by
        simpa [finished, Except.map] using scanned
      simp only [Mode.run_append, Mode.run, Mode.step_delimiter finished delimits]
      cases ending : ((Mode.between.run (pos + first.length + 1) second).2).finish with
      | error error => simp [Except.map]
      | ok ending => simp [Except.map, ← same]

end Juxta.Token
