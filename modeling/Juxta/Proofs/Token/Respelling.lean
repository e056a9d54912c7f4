/-
# Tokens spell themselves

A token keeps the text it was written with. Whatever stood around it, comments
inside a word and a point behind a number included, this text alone spells the
token again. To see this, the scanner is compared with itself at every byte: what
is unfinished in a mode is what the bytes that it has kept, read from the start,
would leave unfinished. So the texts of the tokens of a source, with single
spaces between them, are another source of the same tokens.
-/

import Juxta.Proofs.Token.Spelling

namespace Juxta.Token

/-- A text on its own completes no token and leads to a mode, which depends on
where the text starts. -/
def LeadsAlone (text : Bytes) (mode : Nat → Mode) : Prop :=
  ∀ start, Mode.between.run start text = ([], mode start)

theorem leadsAlone_singleton {byte : UInt8} {mode : Nat → Mode}
    (first : ∀ start, Mode.between.step start byte = ([], mode start)) :
    LeadsAlone [byte] mode := by
  intro start
  rw [Mode.run, first]
  rfl

theorem LeadsAlone.concat {text : Bytes} {mode : Nat → Mode} (leads : LeadsAlone text mode)
    (byte : UInt8) {later : Nat → Mode}
    (step : ∀ start pos, (mode start).step pos byte = ([], later start)) :
    LeadsAlone (text ++ [byte]) later := by
  intro start
  rw [Mode.run_append_of_quiet (leads start), Mode.run, step]
  rfl

/-- If the text that leads to a mode ends there, it spells what the mode completes. -/
theorem LeadsAlone.spells {text : Bytes} {mode : Nat → Mode} (leads : LeadsAlone text mode)
    {kind : Kind} (finished : ∀ start, (mode start).finish = .ok [⟨kind, text, start⟩]) :
    Spells text [⟨kind, text⟩] :=
  fun start => ⟨_, scanFrom_of_run (leads start) (finished start), rfl⟩

/-- A token is what its text alone spells. -/
def SpellsItself (token : Token) : Prop := Spells token.text [token.lexeme]

/-- The bytes of an unfinished word or operator lead to it. -/
def Pending.Respells (word : Pending) : Prop :=
  LeadsAlone word.reversed.reverse fun start => .pending { word with start }

/-- The bytes of an unfinished string lead to it. -/
def Literal.Respells (literal : Literal) : Prop :=
  LeadsAlone literal.reversed.reverse fun start => .string { literal with start }

/-- The bytes of an unfinished number lead to it, and if the last of them is its
point, so do the bytes before the point to the number without it. -/
structure Figures.Respells (figures : Figures) : Prop where
  alone : LeadsAlone figures.reversed.reverse fun start => .number { figures with start }
  unpointed : figures.pointed = false → figures.endsInPoint = false
  body : figures.endsInPoint → ∃ body : Figures, body.reversed = figures.reversed.tail ∧
    body.endsInPoint = false ∧
    LeadsAlone body.reversed.reverse fun start => .number { body with start }

/-- What is unfinished in a mode is what its bytes alone would leave unfinished. -/
def Mode.Respells : Mode → Prop
  | between => True
  | pending word => word.Respells
  | comment _ _ interrupted => ∀ word ∈ interrupted, word.Respells
  | string literal => literal.Respells
  | number figures => figures.Respells

/-- The tokens after a step or a run spell themselves, and so will the next one. -/
structure Respelled (result : List Token × Mode) : Prop where
  tokens : ∀ token ∈ result.1, token.SpellsItself
  mode : result.2.Respells

variable {pos : Nat} {byte : UInt8}

theorem Pending.Respells.spellsItself {word : Pending} (respells : word.Respells) :
    word.token.SpellsItself := by
  apply LeadsAlone.spells respells
  intro start
  rfl

theorem spellsItself_flush {word : Option Pending} (respells : ∀ pending ∈ word, pending.Respells) :
    ∀ token ∈ Pending.flush word, token.SpellsItself := by
  intro token mem
  obtain ⟨pending, found, rfl⟩ : ∃ pending, word = some pending ∧ pending.token = token := by
    simpa [Pending.flush] using mem
  exact (respells pending found).spellsItself

theorem Figures.spells_of_leadsAlone {figures : Figures}
    (leads : LeadsAlone figures.reversed.reverse fun start => .number { figures with start })
    (whole : figures.endsInPoint = false) :
    Spells figures.reversed.reverse
      [⟨.number (Figures.value figures.reversed.reverse), figures.reversed.reverse⟩] := by
  apply leads.spells
  intro start
  exact finish_number whole

theorem Figures.Respells.spellsItself {figures : Figures} (respells : figures.Respells) :
    figures.token.SpellsItself := by
  cases ends : figures.endsInPoint with
  | false =>
      have spelled := spells_of_leadsAlone respells.alone ends
      simpa [SpellsItself, Figures.token, lexeme, ends] using spelled
  | true =>
      -- The point is left to the operator behind the number.
      obtain ⟨body, same, whole, leads⟩ := respells.body ends
      have spelled := spells_of_leadsAlone leads whole
      simpa [SpellsItself, Figures.token, lexeme, ends, same] using spelled

theorem Figures.respells_pending? (figures : Figures) :
    ∀ pending ∈ figures.pending?, pending.Respells := by
  intro pending found
  unfold Figures.pending? at found
  split at found
  · cases found
    exact fun start => rfl
  · cases found

theorem respelled_extend {isWord : Bool}
    (plain : ∀ word pos, stepPlain word pos byte = Pending.extend isWord pos byte word)
    {word : Option Pending} (respells : ∀ pending ∈ word, pending.Respells) :
    Respelled (Pending.extend isWord pos byte word) := by
  have begun : (Pending.mk isWord pos [byte]).Respells :=
    leadsAlone_singleton fun start => plain none start
  cases word with
  | none => exact ⟨by simp [Pending.extend], begun⟩
  | some current =>
      rw [Pending.extend]
      split
      next same =>
        have longer : LeadsAlone (current.reversed.reverse ++ [byte]) fun start =>
            .pending { current with start, reversed := byte :: current.reversed } := by
          apply LeadsAlone.concat (respells current rfl)
          intro start pos
          rw [Mode.step, plain, Pending.extend, if_pos same]
        rw [← List.reverse_cons] at longer
        exact ⟨by simp, longer⟩
      next =>
        refine ⟨?_, begun⟩
        intro token mem
        obtain rfl := List.mem_singleton.mp mem
        exact (respells current rfl).spellsItself

theorem respelled_stepPlain {word : Option Pending}
    (respells : ∀ pending ∈ word, pending.Respells) : Respelled (stepPlain word pos byte) := by
  have flushed := spellsItself_flush respells
  -- A mark of its own spells itself, behind the word that it ends.
  have marked {kind : Kind}
      (alone : ∀ start, Mode.between.step start byte = ([⟨kind, [byte], start⟩], .between)) :
      Respelled (Pending.flush word ++ [⟨kind, [byte], pos⟩], .between) := by
    refine ⟨?_, trivial⟩
    intro token mem
    rcases List.mem_append.mp mem with mem | mem
    · exact flushed token mem
    · obtain rfl := List.mem_singleton.mp mem
      intro start
      exact ⟨[⟨kind, [byte], start⟩], by simp [scanFrom, Mode.run, alone, Mode.finish, Except.map],
        rfl⟩
  unfold stepPlain
  cases sort : ByteClass.of byte with
  | hash => exact ⟨by simp, respells⟩
  | quote =>
      refine ⟨flushed, leadsAlone_singleton fun start => ?_⟩
      simp [Mode.step, stepPlain, sort, Pending.flush]
  | blank => exact ⟨flushed, trivial⟩
  | bracket | special | null | infinity =>
      exact marked fun start => by simp [Mode.step, stepPlain, sort, Pending.flush]
  | digit =>
      have whole : (Figures.mk pos [byte] false).endsInPoint = false := by
        simpa [Figures.endsInPoint] using ne_point_of_isDigit (ByteClass.isDigit_of byte sort)
      refine ⟨flushed, leadsAlone_singleton fun start => ?_, fun _ => whole, ?_⟩
      · simp [Mode.step, stepPlain, sort, Pending.flush]
      · simp [whole]
  | operator | word =>
      exact respelled_extend (fun word pos => by rw [stepPlain, sort]) respells

theorem respelled_stepNumber {figures : Figures} (respells : figures.Respells) :
    Respelled (stepNumber figures pos byte) := by
  unfold stepNumber
  split
  next accepted =>
    have longer : LeadsAlone (figures.reversed.reverse ++ [byte]) fun start =>
        .number ⟨start, byte :: figures.reversed, figures.pointed || byte = Ascii.point⟩ := by
      apply respells.alone.concat
      intro start pos
      have same : ({ figures with start } : Figures).accepts byte = true := accepted
      rw [Mode.step, stepNumber, if_pos same]
    rw [← List.reverse_cons] at longer
    refine ⟨by simp, longer, ?_, ?_⟩
    · intro unpointed
      have noPoint : byte ≠ Ascii.point := by simp_all
      simpa [Figures.endsInPoint] using noPoint
    · intro ends
      -- A point is accepted only by a number without one.
      obtain rfl : byte = Ascii.point := by simpa [Figures.endsInPoint] using ends
      have unpointed : figures.pointed = false := by
        have noDigit : Ascii.isDigit Ascii.point = false := by decide
        have noUnderscore : Ascii.point ≠ Ascii.underscore := by decide
        simpa [Figures.accepts, noDigit, noUnderscore] using accepted
      exact ⟨figures, rfl, respells.unpointed unpointed, respells.alone⟩
  next =>
    have plain : Respelled (stepPlain figures.pending? pos byte) :=
      respelled_stepPlain figures.respells_pending?
    exact ⟨List.forall_mem_cons.mpr ⟨respells.spellsItself, plain.tokens⟩, plain.mode⟩

theorem respelled_stepString {literal : Literal} (respells : literal.Respells) :
    Respelled (stepString literal byte) := by
  have longer {later : Nat → Mode}
      (step : ∀ start, stepString { literal with start } byte = ([], later start)) :
      LeadsAlone (byte :: literal.reversed).reverse later := by
    rw [List.reverse_cons]
    exact respells.concat byte fun start _ => step start
  unfold stepString
  split
  next escaped => exact ⟨by simp, longer fun start => by rw [stepString, if_pos escaped]⟩
  next unescaped =>
    split
    next isQuote =>
      refine ⟨?_, trivial⟩
      intro token mem start
      obtain rfl := List.mem_singleton.mp mem
      have run : Mode.between.run start (byte :: literal.reversed).reverse =
          ([⟨.string literal.decoded.reverse, (byte :: literal.reversed).reverse, start⟩],
            .between) := by
        rw [List.reverse_cons, Mode.run_append_of_quiet (respells start)]
        simp [Mode.run, Mode.step, stepString, unescaped, isQuote]
      exact ⟨_, scanFrom_of_run run rfl, rfl⟩
    next noQuote =>
      split
      next isBackslash =>
        refine ⟨by simp, longer fun start => ?_⟩
        rw [stepString, if_neg unescaped, if_neg noQuote, if_pos isBackslash]
      next noBackslash =>
        refine ⟨by simp, longer fun start => ?_⟩
        rw [stepString, if_neg unescaped, if_neg noQuote, if_neg noBackslash]

theorem respells_stepComment (start : Nat) (escaped : Bool) {interrupted : Option Pending}
    (respells : ∀ pending ∈ interrupted, pending.Respells) :
    (stepComment start escaped interrupted byte).Respells := by
  unfold stepComment
  split
  · exact respells
  · split
    · exact respells
    · split
      · cases interrupted with
        | none => trivial
        | some pending => exact respells pending rfl
      · exact respells

theorem Mode.respelled_step {mode : Mode} (respells : mode.Respells) (pos : Nat) (byte : UInt8) :
    Respelled (mode.step pos byte) := by
  cases mode with
  | between =>
      have nothing : ∀ pending ∈ (none : Option Pending), pending.Respells := by simp
      exact respelled_stepPlain nothing
  | pending word =>
      have single : ∀ pending ∈ some word, pending.Respells := by
        rintro _ ⟨⟩
        exact respells
      exact respelled_stepPlain single
  | comment start escaped interrupted =>
      exact ⟨by simp [Mode.step], respells_stepComment start escaped respells⟩
  | string literal => exact respelled_stepString respells
  | number figures => exact respelled_stepNumber respells

theorem Mode.respelled_run {mode : Mode} (respells : mode.Respells) (pos : Nat) (source : Bytes) :
    Respelled (mode.run pos source) := by
  induction source generalizing mode pos with
  | nil => exact ⟨by simp [Mode.run], respells⟩
  | cons byte rest ih =>
      have step := mode.respelled_step respells pos byte
      have later := ih step.mode (pos + 1)
      exact ⟨List.forall_mem_append.mpr ⟨step.tokens, later.tokens⟩, later.mode⟩

theorem Mode.spellsItself_finish {mode : Mode} (respells : mode.Respells) {tokens : List Token}
    (finished : mode.finish = .ok tokens) : ∀ token ∈ tokens, token.SpellsItself := by
  cases mode with
  | between =>
      cases finished
      simp
  | pending word =>
      cases finished
      intro token mem
      obtain rfl := List.mem_singleton.mp mem
      exact Pending.Respells.spellsItself respells
  | comment start escaped interrupted => cases finished
  | string literal => cases finished
  | number figures =>
      cases finished
      refine List.forall_mem_cons.mpr ⟨Figures.Respells.spellsItself respells, ?_⟩
      exact spellsItself_flush figures.respells_pending?

/-- Every token of a source spells itself. -/
theorem spellsItself_of_scan {source : Bytes} {tokens : List Token}
    (scanned : scan source = .ok tokens) : ∀ token ∈ tokens, token.SpellsItself := by
  have start : Mode.between.Respells := trivial
  have run := Mode.respelled_run start 0 source
  rw [scan] at scanned
  cases finished : (Mode.between.run 0 source).2.finish with
  | error error => simp [finished, Except.map] at scanned
  | ok last =>
      have same : (Mode.between.run 0 source).1 ++ last = tokens := by
        simpa [finished, Except.map] using scanned
      rw [← same]
      exact List.forall_mem_append.mpr ⟨run.tokens, Mode.spellsItself_finish run.mode finished⟩

/-- Texts of tokens that spell themselves, with single spaces between them, spell
the tokens in order. -/
theorem spells_join {tokens : List Token} (each : ∀ token ∈ tokens, token.SpellsItself) :
    Spells (Bytes.join [Ascii.space] (tokens.map text)) (tokens.map lexeme) := by
  induction tokens with
  | nil => exact spells_nil
  | cons token rest ih =>
      have first := each token (by simp)
      have later := ih fun other mem => each other (by simp [mem])
      cases rest with
      | nil => exact first
      | cons second rest =>
          have separated := first.append_blank Ascii.space rfl later
          simpa [Bytes.join] using separated

/-- The texts of the tokens of a source, joined by single spaces, are scanned as
the same tokens in the same order, of which only the offsets may differ. -/
theorem scan_join_texts {source : Bytes} {tokens : List Token}
    (scanned : scan source = .ok tokens) :
    ∃ again, scan (Bytes.join [Ascii.space] (tokens.map text)) = .ok again ∧
      again.map lexeme = tokens.map lexeme := by
  rw [scan_eq_scanFrom]
  exact spells_join (spellsItself_of_scan scanned) 0

theorem scan_join_texts_glued :
    let source := utf8 "ab#c#d1_.#-#>\"x\\q\n\\\"\"@_"
    let tokens : List Token := [⟨.word, utf8 "abd", 0⟩, ⟨.number ⟨1, 1⟩, utf8 "1_", 6⟩,
      ⟨.operator, utf8 ".>", 8⟩, ⟨.string (utf8 "xq\n\""), utf8 "\"x\\q\n\\\"\"", 13⟩,
      ⟨.number ⟨1, 0⟩, utf8 "@", 21⟩, ⟨.null, utf8 "_", 22⟩]
    scan source = .ok tokens ∧
      Bytes.join [Ascii.space] (tokens.map text) = utf8 "abd 1_ .> \"x\\q\n\\\"\" @ _" ∧
      ∃ again, scan (utf8 "abd 1_ .> \"x\\q\n\\\"\" @ _") = .ok again ∧
        again.map lexeme = tokens.map lexeme := by
  intro source tokens
  have scanned : scan source = .ok tokens := by rfl
  exact ⟨scanned, rfl, scan_join_texts scanned⟩

end Juxta.Token
