/-
# What a history entry denotes

The history keeps a program on one line: every newline becomes a space. Between
tokens and inside comments the scanner takes both for the same, so that the entry
has the same tokens at the same offsets. Inside a string they are different
bytes. The scanner is run on the program and on its entry side by side: only the
strings that hold a newline differ, and these always do. So an entry is the same
program exactly if no string of the program goes over the end of a line.
-/

import Juxta.Command.Prompt
import Juxta.Proofs.Text.Bytes
import Mathlib.Data.List.Forall2

namespace Juxta

open Command (History)

namespace Command.History

/-- The byte of an entry in the place of a byte of the program. -/
def flatten (byte : UInt8) : UInt8 := if byte = Ascii.newline then Ascii.space else byte

theorem flatten_of_ne {byte : UInt8} (noNewline : byte ≠ Ascii.newline) : flatten byte = byte :=
  if_neg noNewline

theorem flatten_eq_self_iff (byte : UInt8) : flatten byte = byte ↔ byte ≠ Ascii.newline := by
  constructor
  · rintro same rfl
    cases same
  · exact flatten_of_ne

theorem entryOf_cons (byte : UInt8) (rest : Bytes) :
    entryOf (byte :: rest) = flatten byte :: entryOf rest := rfl

theorem entryOf_reverse (text : Bytes) : entryOf text.reverse = (entryOf text).reverse :=
  List.map_reverse

theorem entryOf_of_not_mem {text : Bytes} (noNewline : Ascii.newline ∉ text) :
    entryOf text = text := by
  have kept : ∀ byte ∈ text, flatten byte = id byte := by
    intro byte mem
    exact flatten_of_ne fun isNewline => noNewline (isNewline ▸ mem)
  exact (List.map_congr_left kept).trans (List.map_id text)

/-- An entry that is added is the last one. -/
theorem getLast?_add (history : History) (entry : Bytes) :
    (history.add entry).entries.getLast? = some entry := by
  rw [add]
  split
  next isLast => exact isLast
  next =>
    have kept : ¬(history.entries ++ [entry]).length ≤
        (history.entries ++ [entry]).length - limit := by
      rw [List.length_append, List.length_singleton, limit]
      omega
    rw [recent, List.getLast?_drop, if_neg kept, List.getLast?_concat]

end Command.History

namespace Token

/-- Whether a token is a string that goes over the end of a line. -/
def breaksLine (token : Token) : Bool :=
  match token.kind with
  | .string _ => token.text.contains Ascii.newline
  | _ => false

/-- The token of an entry in the place of a token of the program: a string loses
the newlines of its text, and if there are any, its value changes. -/
inductive Flattened : Token → Token → Prop
  | other {token : Token} (noString : ∀ value, token.kind ≠ .string value) : Flattened token token
  | string {value value' text : Bytes} {pos : Int}
      (changed : value' = value ↔ Ascii.newline ∉ text) :
      Flattened ⟨.string value, text, pos⟩ ⟨.string value', History.entryOf text, pos⟩

/-- The mode on an entry in the place of a mode on the program. -/
inductive Mode.Flattened : Mode → Mode → Prop
  | other {mode : Mode} (noString : ∀ literal, mode ≠ .string literal) : Flattened mode mode
  | string {literal : Literal} {decoded : Bytes}
      (changed : decoded = literal.decoded ↔ Ascii.newline ∉ literal.reversed) :
      Flattened (.string literal)
        (.string ⟨literal.start, History.entryOf literal.reversed, decoded, literal.escaped⟩)

/-- What a step or a run leads to on an entry, in the place of what it leads to
on the program. -/
structure FlattenedResult (result result' : List Token × Mode) : Prop where
  tokens : List.Forall₂ Flattened result.1 result'.1
  mode : result.2.Flattened result'.2

section Code

variable (word : Option Pending) (pos : Nat) (byte : UInt8)

theorem flattened_flush : List.Forall₂ Flattened (Pending.flush word) (Pending.flush word) := by
  rw [List.forall₂_same]
  intro token mem
  obtain ⟨pending, _, rfl⟩ : ∃ pending, word = some pending ∧ pending.token = token := by
    simpa [Pending.flush] using mem
  refine .other fun value same => ?_
  simp only [Pending.token] at same
  split at same <;> cases same

theorem flattened_extend (isWord : Bool) :
    FlattenedResult (Pending.extend isWord pos byte word)
      (Pending.extend isWord pos byte word) := by
  have flushed := flattened_flush word
  unfold Pending.extend
  split
  · split
    · exact ⟨.nil, .other (by simp)⟩
    · exact ⟨flushed, .other (by simp)⟩
  · exact ⟨.nil, .other (by simp)⟩

theorem flattened_stepPlain :
    FlattenedResult (stepPlain word pos byte) (stepPlain word pos byte) := by
  have flushed := flattened_flush word
  have marked {kind : Kind} (noString : ∀ value, kind ≠ .string value) :
      FlattenedResult (Pending.flush word ++ [⟨kind, [byte], pos⟩], .between)
        (Pending.flush word ++ [⟨kind, [byte], pos⟩], .between) :=
    ⟨List.rel_append flushed (.cons (.other noString) .nil), .other (by simp)⟩
  unfold stepPlain
  cases sort : ByteClass.of byte with
  | hash => exact ⟨.nil, .other (by simp)⟩
  | quote =>
      have noNewline : byte ≠ Ascii.newline := by
        rintro rfl
        cases sort
      have opened : ([] : Bytes) = [] ↔ Ascii.newline ∉ [byte] := by simp [noNewline.symm]
      have same : (Mode.string ⟨pos, [byte], [], false⟩).Flattened
          (.string ⟨pos, History.entryOf [byte], [], false⟩) := .string opened
      rw [History.entryOf_of_not_mem (by simp [noNewline.symm])] at same
      exact ⟨flushed, same⟩
  | blank => exact ⟨flushed, .other (by simp)⟩
  | bracket | special | null | infinity => exact marked (by simp)
  | digit => exact ⟨flushed, .other (by simp)⟩
  | operator | word => exact flattened_extend word pos byte _

theorem flattened_stepNumber (figures : Figures) :
    FlattenedResult (stepNumber figures pos byte) (stepNumber figures pos byte) := by
  unfold stepNumber
  split
  · exact ⟨.nil, .other (by simp)⟩
  · have plain := flattened_stepPlain figures.pending? pos byte
    exact ⟨.cons (.other (by simp [Figures.token])) plain.tokens, plain.mode⟩

theorem flattened_stepComment (start : Nat) (escaped : Bool) :
    (stepComment start escaped word byte).Flattened (stepComment start escaped word byte) := by
  apply Mode.Flattened.other
  intro literal same
  unfold stepComment at same
  cases word <;> simp only [Mode.ofPending] at same <;> split_ifs at same

end Code

variable {mode mode' : Mode}

/-- Outside strings, an entry is scanned like the program. -/
theorem Mode.flattened_step_other (noString : ∀ literal, mode ≠ .string literal) (pos : Nat)
    (byte : UInt8) :
    FlattenedResult (mode.step pos byte) (mode.step pos (History.flatten byte)) := by
  -- A space does what a newline does.
  have same : mode.step pos (History.flatten byte) = mode.step pos byte := by
    by_cases isNewline : byte = Ascii.newline
    · subst isNewline
      cases mode with
      | between | pending | number => rfl
      | comment start escaped interrupted => cases escaped <;> rfl
      | string literal => exact absurd rfl (noString literal)
    · rw [History.flatten_of_ne isNewline]
  rw [same]
  cases mode with
  | between => exact flattened_stepPlain none pos byte
  | pending word => exact flattened_stepPlain (some word) pos byte
  | comment start escaped interrupted =>
      exact ⟨.nil, flattened_stepComment interrupted byte start escaped⟩
  | string literal => exact absurd rfl (noString literal)
  | number figures => exact flattened_stepNumber pos byte figures

theorem unescape_flatten_eq_iff (byte : UInt8) :
    unescape (History.flatten byte) = unescape byte ↔ byte ≠ Ascii.newline := by
  constructor
  · rintro same rfl
    cases same
  · intro noNewline
    rw [History.flatten_of_ne noNewline]

/-- Inside a string, a byte of the program and the byte of its entry make the
same of the string, apart from the bytes themselves. -/
theorem flattened_stepString {literal : Literal} {decoded : Bytes}
    (changed : decoded = literal.decoded ↔ Ascii.newline ∉ literal.reversed) (byte : UInt8) :
    FlattenedResult (stepString literal byte)
      (stepString ⟨literal.start, History.entryOf literal.reversed, decoded, literal.escaped⟩
        (History.flatten byte)) := by
  have absent : Ascii.newline ∉ byte :: literal.reversed ↔
      byte ≠ Ascii.newline ∧ Ascii.newline ∉ literal.reversed := by
    rw [List.mem_cons, not_or, ne_comm]
  have pushed {made made' : UInt8} (same : made' = made ↔ byte ≠ Ascii.newline) :
      Mode.Flattened
        (.string ⟨literal.start, byte :: literal.reversed, made :: literal.decoded, false⟩)
        (.string ⟨literal.start, History.entryOf (byte :: literal.reversed), made' :: decoded,
          false⟩) :=
    .string (by rw [absent, List.cons.injEq, same, changed])
  unfold stepString
  cases escaped : literal.escaped with
  | true => exact ⟨.nil, pushed (unescape_flatten_eq_iff byte)⟩
  | false =>
      by_cases isNewline : byte = Ascii.newline
      · -- A newline and a space both stand for themselves.
        subst isNewline
        exact ⟨.nil, pushed (History.flatten_eq_self_iff _)⟩
      · have kept : History.entryOf (byte :: literal.reversed) =
            byte :: History.entryOf literal.reversed := by
          rw [History.entryOf_cons, History.flatten_of_ne isNewline]
        have stays : decoded = literal.decoded ↔ Ascii.newline ∉ byte :: literal.reversed := by
          rw [absent, changed, and_iff_right isNewline]
        rw [History.flatten_of_ne isNewline, ← kept]
        simp only [Bool.false_eq_true, if_false]
        split
        next isQuote =>
          rw [← History.entryOf_reverse]
          refine ⟨.cons (.string ?_) .nil, .other (by simp)⟩
          rw [List.reverse_inj, List.mem_reverse, stays]
        next noQuote =>
          split
          next isBackslash => exact ⟨.nil, .string stays⟩
          next noBackslash => exact ⟨.nil, pushed (by simp [isNewline])⟩

theorem Mode.flattened_step (flattened : mode.Flattened mode') (pos : Nat) (byte : UInt8) :
    FlattenedResult (mode.step pos byte) (mode'.step pos (History.flatten byte)) := by
  cases flattened with
  | other noString => exact mode.flattened_step_other noString pos byte
  | string changed => exact flattened_stepString changed byte

theorem Mode.flattened_run (flattened : mode.Flattened mode') (pos : Nat) (source : Bytes) :
    FlattenedResult (mode.run pos source) (mode'.run pos (History.entryOf source)) := by
  induction source generalizing mode mode' pos with
  | nil => exact ⟨.nil, flattened⟩
  | cons byte rest ih =>
      have step := Mode.flattened_step flattened pos byte
      have later := ih step.mode (pos + 1)
      exact ⟨List.rel_append step.tokens later.tokens, later.mode⟩

theorem Mode.flattened_finish (flattened : mode.Flattened mode') {tokens : List Token}
    (finished : mode.finish = .ok tokens) :
    ∃ later, mode'.finish = .ok later ∧ List.Forall₂ Token.Flattened tokens later := by
  cases flattened with
  | string changed => cases finished
  | other noString =>
      refine ⟨tokens, finished, ?_⟩
      cases mode with
      | between =>
          cases finished
          exact .nil
      | pending word =>
          cases finished
          exact flattened_flush (some word)
      | comment start escaped interrupted => cases finished
      | string literal => cases finished
      | number figures =>
          cases finished
          exact .cons (.other (by simp [Figures.token])) (flattened_flush figures.pending?)

/-- The entry of a program has its tokens, apart from strings with a newline. -/
theorem flattened_scan {source : Bytes} {tokens : List Token} (scanned : scan source = .ok tokens) :
    ∃ later, scan (History.entryOf source) = .ok later ∧ List.Forall₂ Flattened tokens later := by
  have start : Mode.between.Flattened .between := .other (by simp)
  have run := Mode.flattened_run start 0 source
  rw [scan] at scanned ⊢
  cases finished : (Mode.between.run 0 source).2.finish with
  | error error => simp [finished, Except.map] at scanned
  | ok last =>
      have same : (Mode.between.run 0 source).1 ++ last = tokens := by
        simpa [finished, Except.map] using scanned
      obtain ⟨last', finished', flattened⟩ := Mode.flattened_finish run.mode finished
      refine ⟨(Mode.between.run 0 (History.entryOf source)).1 ++ last', ?_, ?_⟩
      · simp [finished', Except.map]
      · rw [← same]
        exact List.rel_append run.tokens flattened

theorem Flattened.kind_eq_iff {token flat : Token} (flattened : Flattened token flat) :
    flat.kind = token.kind ↔ ¬ token.breaksLine := by
  cases flattened with
  | other noString =>
      unfold breaksLine
      split
      next value same => exact absurd same (noString value)
      next => simp
  | string changed => simp [breaksLine, changed]

theorem Flattened.eq_of_not_breaksLine {token flat : Token} (flattened : Flattened token flat)
    (whole : ¬ token.breaksLine) : flat = token := by
  cases flattened with
  | other noString => rfl
  | string changed =>
      have noNewline := by simpa [breaksLine] using whole
      rw [changed.mpr noNewline, History.entryOf_of_not_mem noNewline]

theorem map_kind_eq_iff {tokens later : List Token}
    (flattened : List.Forall₂ Flattened tokens later) :
    later.map kind = tokens.map kind ↔ ∀ token ∈ tokens, ¬ token.breaksLine := by
  induction flattened with
  | nil => simp
  | cons first _ ih => simp [first.kind_eq_iff, ih]

theorem eq_of_not_breaksLine {tokens later : List Token}
    (flattened : List.Forall₂ Flattened tokens later)
    (whole : ∀ token ∈ tokens, ¬ token.breaksLine) : later = tokens := by
  induction flattened with
  | nil => rfl
  | cons first _ ih =>
      rw [first.eq_of_not_breaksLine (whole _ (by simp)),
        ih fun token mem => whole token (by simp [mem])]

end Token

namespace Command.Prompt

/-- A program that the prompt evaluates becomes the last entry of the history, on
one line. If the program can be scanned, so can the entry. The entry has the same
kinds of tokens, with the same values, exactly if no string of the program goes
over the end of a line, and then it is read as the same tree. -/
theorem take_history_entry (format : RawFormat) (prompt : Prompt) {source : Bytes}
    (notBlank : (Blank.trim source).isEmpty = false) (notQuit : Blank.trim source ≠ quit)
    {tokens : List Token} (scanned : Token.scan source = .ok tokens) :
    ∃ next later, take format prompt source = .goOn next ∧
      next.history.entries.getLast? = some (History.entryOf source) ∧
      Token.scan (History.entryOf source) = .ok later ∧
      (later.map Token.kind = tokens.map Token.kind ↔ ∀ token ∈ tokens, ¬ token.breaksLine) ∧
      (later.map Token.kind = tokens.map Token.kind →
        Program.read (History.entryOf source) = Program.read source) := by
  have taken : take format prompt source = .goOn
      ⟨[], prompt.history.add (History.entryOf source), eval format source prompt.console⟩ := by
    rw [take]
    simp [notBlank, notQuit]
  obtain ⟨later, scanned', flattened⟩ := Token.flattened_scan scanned
  refine ⟨_, later, taken, History.getLast?_add prompt.history _, scanned',
    Token.map_kind_eq_iff flattened, ?_⟩
  intro same
  rw [Token.map_kind_eq_iff flattened] at same
  rw [Program.read, Program.read, scanned, scanned', Token.eq_of_not_breaksLine flattened same]

theorem take_history_entry_threeLines :
    let source := utf8 "[1 #x\ny#,\n\"a\\nb\"]"
    let entry := utf8 "[1 #x y#, \"a\\nb\"]"
    let tokens : List Token := [⟨.bracket, utf8 "[", 0⟩, ⟨.number ⟨1, 1⟩, utf8 "1", 1⟩,
      ⟨.special, utf8 ",", 8⟩, ⟨.string (utf8 "a\nb"), utf8 "\"a\\nb\"", 10⟩,
      ⟨.bracket, utf8 "]", 16⟩]
    (Blank.trim source).isEmpty = false ∧ Blank.trim source ≠ quit ∧
      Token.scan source = .ok tokens ∧ (∀ token ∈ tokens, ¬ token.breaksLine) ∧
      ∃ next later, take .none (start ⟨[]⟩ (.initial none false)) source = .goOn next ∧
        next.history.entries.getLast? = some entry ∧ Token.scan entry = .ok later ∧
        later.map Token.kind = tokens.map Token.kind ∧
        Program.read entry = Program.read source := by
  intro source entry tokens
  have notBlank : (Blank.trim source).isEmpty = false := by rfl
  have notQuit : Blank.trim source ≠ quit := by decide
  have scanned : Token.scan source = .ok tokens := by rfl
  have whole : ∀ token ∈ tokens, ¬ token.breaksLine := by decide
  obtain ⟨next, later, taken, last, scanned', same, read⟩ :=
    take_history_entry .none (start ⟨[]⟩ (.initial none false)) notBlank notQuit scanned
  exact ⟨notBlank, notQuit, scanned, whole, next, later, taken, last, scanned', same.mpr whole,
    read (same.mpr whole)⟩

/-- A string over two lines is another string when it is recalled. -/
theorem entryOf_brokenString :
    let source := utf8 "\"a\nb\""
    let tokens : List Token := [⟨.string (utf8 "a\nb"), source, 0⟩]
    Program.needsMore source = false ∧ (Blank.trim source).isEmpty = false ∧
      Blank.trim source ≠ quit ∧ Token.scan source = .ok tokens ∧
      ¬ ∃ later, Token.scan (History.entryOf source) = .ok later ∧
        later.map Token.kind = tokens.map Token.kind := by
  intro source tokens
  refine ⟨by rfl, by rfl, by decide, by rfl, ?_⟩
  rintro ⟨later, scanned, same⟩
  cases scanned
  cases same

end Command.Prompt

end Juxta
