/-
# Where reading tokens fails

A source text has no tokens only if the reading that tells code, strings and
comments apart ends inside one of the latter. The scanner remembers where this
string or comment was opened: a byte that leads out of code sets the place, and
bytes inside leave it alone. There is one such place in a text, so the error can
be told from the text without the scanner. The closing mark mends the text.

Numbers give no cause to fail. Whatever the scanner takes for a number has a
digit, so that a reader which does refuse texts without digits reads it.
-/

import Juxta.Eval.Error
import Juxta.Proofs.Text.Numeral
import Juxta.Proofs.Token.Outline
import Mathlib.Data.List.Induction

namespace Juxta

namespace Token

namespace Region

/-- Where a reading stands after a text. -/
def after (region : Region) (text : Bytes) : Region := text.foldl next region

theorem after_append (region : Region) (first second : Bytes) :
    region.after (first ++ second) = (region.after first).after second := List.foldl_append

theorem after_concat (region : Region) (text : Bytes) (byte : UInt8) :
    region.after (text ++ [byte]) = (region.after text).next byte := region.after_append text [byte]

/-- Only the mark of a comment or string leads from code into it. -/
theorem eq_mark_of_next_code {byte : UInt8} {what : Open} {escaped : Bool}
    (opened : code.next byte = inside what escaped) : byte = what.mark := by
  rw [next] at opened
  split at opened
  next isHash =>
    cases opened
    exact isHash
  next =>
    split at opened
    next isQuote =>
      cases opened
      exact isQuote
    next => cases opened

theorem after_code_mark (what : Open) (body : Bytes) :
    code.after (what.mark :: body) = (inside what false).after body := by
  cases what <;> rfl

/-- No byte leads from a comment into a string or back. -/
theorem eq_of_next_inside {byte : UInt8} {what other : Open} {escaped escaped' : Bool}
    (stayed : (inside what escaped).next byte = inside other escaped') : other = what := by
  rw [next] at stayed
  split_ifs at stayed <;> cases stayed <;> rfl

/-- A comment or string can be closed. After a backslash the first mark does not count. -/
theorem exists_after_inside (what : Open) (escaped : Bool) :
    ∃ rest, (inside what escaped).after rest = code := by
  cases escaped with
  | false => exact ⟨[what.mark], by cases what <;> rfl⟩
  | true => exact ⟨[what.mark, what.mark], by cases what <;> rfl⟩

end Region

/-- A comment or string opens in code at an offset of a text, and nothing in the
text from there on closes it. -/
def UnclosedAt (source : Bytes) (pos : Nat) (what : Open) : Prop :=
  ∃ before body, source = before ++ what.mark :: body ∧ before.length = pos ∧
    Region.code.after before = .code ∧
    ∀ early, early <+: body →
      ∃ escaped, (Region.inside what false).after early = .inside what escaped

namespace UnclosedAt

variable {source : Bytes} {pos : Nat} {what : Open}

theorem exists_after (unclosed : UnclosedAt source pos what) :
    ∃ escaped, Region.code.after source = .inside what escaped := by
  obtain ⟨before, body, rfl, -, plain, within⟩ := unclosed
  rw [Region.after_append, plain, Region.after_code_mark]
  exact within body List.prefix_rfl

theorem of_opened {byte : UInt8} {escaped : Bool} (plain : Region.code.after source = .code)
    (opened : Region.code.next byte = .inside what escaped) :
    UnclosedAt (source ++ [byte]) source.length what := by
  obtain rfl := Region.eq_mark_of_next_code opened
  refine ⟨source, [], rfl, rfl, plain, fun early isPrefix => ⟨false, ?_⟩⟩
  rw [List.prefix_nil.mp isPrefix]
  rfl

/-- What is not closed before a byte is not closed after it either, unless the
reading is back in code. -/
theorem concat {byte : UInt8} {other : Open} {escaped : Bool}
    (unclosed : UnclosedAt source pos what)
    (stayed : Region.code.after (source ++ [byte]) = .inside other escaped) :
    UnclosedAt (source ++ [byte]) pos what := by
  have same : other = what := by
    obtain ⟨escapedBefore, inside⟩ := unclosed.exists_after
    rw [Region.after_concat, inside] at stayed
    exact Region.eq_of_next_inside stayed
  subst same
  obtain ⟨before, body, rfl, place, plain, within⟩ := unclosed
  refine ⟨before, body ++ [byte], by simp, place, plain, fun early isPrefix => ?_⟩
  rcases List.prefix_concat_iff.mp isPrefix with rfl | shorter
  · refine ⟨escaped, ?_⟩
    rwa [List.append_assoc, List.cons_append, Region.after_append, plain,
      Region.after_code_mark] at stayed
  · exact within early shorter

/-- Before the place where another comment or string opens, the first one would
have been closed. -/
theorem not_lt {pos' : Nat} {what' : Open} (unclosed : UnclosedAt source pos what)
    (unclosed' : UnclosedAt source pos' what') : ¬ pos < pos' := by
  intro earlier
  obtain ⟨before, body, rfl, rfl, plain, within⟩ := unclosed
  obtain ⟨before', body', same, rfl, plain', -⟩ := unclosed'
  rcases List.append_eq_append_iff.mp same with ⟨gap, rfl, shared⟩ | ⟨gap, rfl, -⟩
  · cases gap with
    | nil => simp at earlier
    | cons byte early =>
        obtain ⟨rfl, rfl⟩ := List.cons.inj shared
        obtain ⟨escaped, inside⟩ := within early (List.prefix_append _ _)
        rw [Region.after_append, plain, Region.after_code_mark, inside] at plain'
        cases plain'
  · rw [List.length_append] at earlier
    omega

theorem unique {pos' : Nat} {what' : Open} (unclosed : UnclosedAt source pos what)
    (unclosed' : UnclosedAt source pos' what') : pos = pos' ∧ what = what' := by
  constructor
  · have notBefore := unclosed.not_lt unclosed'
    have notAfter := unclosed'.not_lt unclosed
    omega
  · obtain ⟨escaped, inside⟩ := unclosed.exists_after
    obtain ⟨escaped', inside'⟩ := unclosed'.exists_after
    rw [inside] at inside'
    cases inside'
    rfl

end UnclosedAt

/-- The tokens that the scanner meets in a text, whether or not it can finish. -/
def met (source : Bytes) : List Token :=
  (Mode.between.run 0 source).1 ++ (Mode.between.run 0 source).2.unfinished

namespace Mode

/-- The error of a text that ends in a mode, if it is one. -/
def unclosed : Mode → Option LexError
  | between | pending _ | number _ => none
  | comment start _ _ => some ⟨start, .comment⟩
  | string literal => some ⟨literal.start, .string⟩

theorem finish_eq (mode : Mode) :
    mode.finish = mode.unclosed.elim (.ok mode.unfinished) .error := by
  cases mode <;> rfl

theorem unclosed_eq_none_iff (mode : Mode) : mode.unclosed = none ↔ mode.region = .code := by
  cases mode <;> simp [unclosed, region]

/-- The opening to remember in a region: an earlier one if there is one, and
otherwise the one at an offset. -/
def remembered (opening : Option LexError) (pos : Nat) : Region → Option LexError
  | .code => none
  | .inside what _ => some (opening.getD ⟨pos, what⟩)

theorem unclosed_stepPlain (word : Option Pending) (pos : Nat) (byte : UInt8) :
    (stepPlain word pos byte).2.unclosed =
      remembered none pos (stepPlain word pos byte).2.region := by
  have extended (isWord : Bool) : (Pending.extend isWord pos byte word).2.unclosed =
      remembered none pos (Pending.extend isWord pos byte word).2.region := by
    cases word with
    | none => rfl
    | some current =>
        rw [Pending.extend]
        split <;> rfl
  unfold stepPlain
  cases ByteClass.of byte with
  | hash | quote | blank | bracket | special | null | infinity | digit => rfl
  | operator | word => exact extended _

/-- A byte that leads out of code is remembered as the opening, and inside a
comment or string the opening stays. -/
theorem unclosed_step (mode : Mode) (pos : Nat) (byte : UInt8) :
    (mode.step pos byte).2.unclosed =
      remembered mode.unclosed pos (mode.step pos byte).2.region := by
  cases mode with
  | between => exact unclosed_stepPlain none pos byte
  | pending word => exact unclosed_stepPlain (some word) pos byte
  | comment start escaped interrupted =>
      simp only [step, stepComment]
      split_ifs
      · rfl
      · rfl
      · cases interrupted <;> rfl
      · rfl
  | string literal =>
      simp only [step, stepString]
      split_ifs <;> rfl
  | number figures =>
      simp only [step, stepNumber]
      split_ifs
      · rfl
      · exact unclosed_stepPlain figures.pending? pos byte

/-- What a mode knows of the text that led to it. -/
structure Follows (mode : Mode) (source : Bytes) : Prop where
  isStarted : mode.IsStarted source.length
  region : mode.region = Region.code.after source
  unclosedAt : ∀ error ∈ mode.unclosed, UnclosedAt source error.pos error.unterminated

theorem Follows.step {mode : Mode} {source : Bytes} (follows : mode.Follows source)
    (byte : UInt8) : (mode.step source.length byte).2.Follows (source ++ [byte]) := by
  have accounts := mode.accounts_step follows.isStarted byte
  have moved : (mode.step source.length byte).2.region = Region.code.after (source ++ [byte]) := by
    rw [accounts.region, follows.region, Region.after_concat]
  refine ⟨?_, moved, ?_⟩
  · rw [List.length_append]
    exact accounts.isStarted
  · intro error found
    rw [unclosed_step, moved] at found
    cases stands : Region.code.after (source ++ [byte]) with
    | code =>
        rw [stands] at found
        cases found
    | inside what escaped =>
        rw [stands] at found
        cases opening : mode.unclosed with
        | none =>
            rw [opening] at found
            cases found
            have plain : Region.code.after source = .code := by
              rw [← follows.region, ← unclosed_eq_none_iff, opening]
            rw [Region.after_concat, plain] at stands
            exact .of_opened plain stands
        | some earlier =>
            rw [opening] at found
            cases found
            exact (follows.unclosedAt earlier opening).concat stands

theorem follows_run (source : Bytes) : (between.run 0 source).2.Follows source := by
  -- The offset of an opening counts what is before it, so bytes are added at the end.
  induction source using List.reverseRecOn with
  | nil => exact ⟨trivial, rfl, nofun⟩
  | append_singleton source byte ih =>
      rw [run_append, Nat.zero_add]
      exact ih.step byte

end Mode

theorem scan_eq (source : Bytes) :
    scan source = (Mode.between.run 0 source).2.unclosed.elim (.ok (met source)) .error := by
  change (Mode.between.run 0 source).2.finish.map _ = _
  rw [Mode.finish_eq]
  cases (Mode.between.run 0 source).2.unclosed <;> rfl

/-- A text has tokens exactly if the reading ends in code. -/
theorem exists_scan_eq_ok_iff (source : Bytes) :
    (∃ tokens, scan source = .ok tokens) ↔ Region.code.after source = .code := by
  rw [← (Mode.follows_run source).region, ← Mode.unclosed_eq_none_iff, scan_eq]
  cases (Mode.between.run 0 source).2.unclosed <;> simp

theorem unclosedAt_of_scan {source : Bytes} {error : LexError}
    (failed : scan source = .error error) :
    UnclosedAt source error.pos error.unterminated := by
  apply (Mode.follows_run source).unclosedAt
  rw [scan_eq] at failed
  cases opening : (Mode.between.run 0 source).2.unclosed with
  | none =>
      rw [opening] at failed
      cases failed
  | some earlier =>
      rw [opening] at failed
      cases failed
      rfl

theorem scan_of_unclosedAt {source : Bytes} {pos : Nat} {what : Open}
    (unclosed : UnclosedAt source pos what) : scan source = .error ⟨pos, what⟩ := by
  cases scanned : scan source with
  | ok tokens =>
      have plain := (exists_scan_eq_ok_iff source).mp ⟨tokens, scanned⟩
      obtain ⟨escaped, inside⟩ := unclosed.exists_after
      rw [plain] at inside
      cases inside
  | error error =>
      obtain ⟨rfl, rfl⟩ := unclosed.unique (unclosedAt_of_scan scanned)
      rfl

/-- A number is infinity, or a reader that refuses all but runs of digits gets
its value from its digits and the count of those behind the point. -/
def IsReadable (token : Token) : Prop :=
  ∀ value, token.kind = .number value →
    (token.text = [Ascii.atSign] ∧ value = Fraction.infinity) ∨
      Fraction.readDecimal (token.text.filter Ascii.isDigit)
        ((token.text.dropWhile (· != Ascii.point)).filter Ascii.isDigit).length = .ok value

theorem isReadable_of_ne_number {token : Token} (other : ∀ value, token.kind ≠ .number value) :
    token.IsReadable :=
  fun value isNumber => absurd isNumber (other value)

theorem isReadable_of_mem {text : Bytes} {digit : UInt8} (mem : digit ∈ text)
    (isDigit : Ascii.isDigit digit) (pos : Int) :
    IsReadable ⟨.number (Figures.value text), text, pos⟩ := by
  rintro value ⟨⟩
  have nonempty : text.filter Ascii.isDigit ≠ [] :=
    List.ne_nil_of_mem (List.mem_filter.mpr ⟨mem, isDigit⟩)
  have read := Numeral.readInt?_of_digits nonempty fun byte kept => (List.mem_filter.mp kept).2
  refine .inr ?_
  simp only [Fraction.readDecimal, read]
  rfl

theorem isReadable_flush (word : Option Pending) :
    ∀ token ∈ Pending.flush word, token.IsReadable := by
  cases word with
  | none => exact List.forall_mem_nil _
  | some pending =>
      refine List.forall_mem_singleton.mpr (isReadable_of_ne_number fun value => ?_)
      cases isWord : pending.isWord <;> simp [Pending.token, isWord]

theorem ByteClass.eq_atSign_of {byte : UInt8} (sort : of byte = infinity) :
    byte = Ascii.atSign := by
  by_contra other
  simp only [of, if_neg other, ite_eq_iff, reduceCtorEq, and_false, or_false] at sort

namespace Mode

variable {mode : Mode} {pos : Nat}

theorem isReadable_token {figures : Figures} (started : (number figures).IsStarted pos) :
    figures.token.IsReadable := by
  obtain ⟨-, digit, first, isDigit⟩ := started
  have begun := (List.cons.inj (beginnings_number first isDigit)).1
  have head : figures.token.text.head? = some digit := congrArg Prod.fst begun
  exact isReadable_of_mem (List.mem_of_mem_head? head) isDigit figures.start

theorem isReadable_unfinished (started : mode.IsStarted pos) :
    ∀ token ∈ mode.unfinished, token.IsReadable := by
  cases mode with
  | between => exact List.forall_mem_nil _
  | pending word => exact isReadable_flush (some word)
  | comment _ _ interrupted => exact isReadable_flush interrupted
  | string literal => exact List.forall_mem_singleton.mpr (isReadable_of_ne_number (by simp))
  | number figures =>
      exact List.forall_mem_cons.mpr ⟨isReadable_token started, isReadable_flush _⟩

theorem isReadable_stepPlain (word : Option Pending) (byte : UInt8) :
    ∀ token ∈ (stepPlain word pos byte).1, token.IsReadable := by
  have flushed := isReadable_flush word
  have marked {kind : Kind} (readable : IsReadable ⟨kind, [byte], pos⟩) :
      ∀ token ∈ Pending.flush word ++ [⟨kind, [byte], pos⟩], token.IsReadable :=
    List.forall_mem_append.mpr ⟨flushed, List.forall_mem_singleton.mpr readable⟩
  have extended (isWord : Bool) :
      ∀ token ∈ (Pending.extend isWord pos byte word).1, token.IsReadable := by
    cases word with
    | none => exact List.forall_mem_nil _
    | some current =>
        rw [Pending.extend]
        split
        · exact List.forall_mem_nil _
        · exact flushed
  unfold stepPlain
  cases sort : ByteClass.of byte with
  | hash => exact List.forall_mem_nil _
  | quote | blank | digit => exact flushed
  | bracket | special | null => exact marked (isReadable_of_ne_number (by simp))
  | infinity =>
      obtain rfl := ByteClass.eq_atSign_of sort
      refine marked ?_
      rintro value ⟨⟩
      exact .inl ⟨rfl, rfl⟩
  | operator | word => exact extended _

theorem isReadable_step (started : mode.IsStarted pos) (byte : UInt8) :
    ∀ token ∈ (mode.step pos byte).1, token.IsReadable := by
  cases mode with
  | between => exact isReadable_stepPlain none byte
  | pending word => exact isReadable_stepPlain (some word) byte
  | comment => exact List.forall_mem_nil _
  | string literal =>
      simp only [step, stepString]
      split_ifs
      · exact List.forall_mem_nil _
      · exact List.forall_mem_singleton.mpr (isReadable_of_ne_number (by simp))
      · exact List.forall_mem_nil _
      · exact List.forall_mem_nil _
  | number figures =>
      simp only [step, stepNumber]
      split_ifs
      · exact List.forall_mem_nil _
      · exact List.forall_mem_cons.mpr ⟨isReadable_token started, isReadable_stepPlain _ byte⟩

theorem isReadable_run (started : mode.IsStarted pos) (source : Bytes) :
    ∀ token ∈ (mode.run pos source).1 ++ (mode.run pos source).2.unfinished,
      token.IsReadable := by
  induction source generalizing mode pos with
  | nil => exact isReadable_unfinished started
  | cons byte rest ih =>
      have later := ih (mode.accounts_step started byte).isStarted
      rw [run, List.append_assoc]
      exact List.forall_mem_append.mpr ⟨isReadable_step started byte, later⟩

end Mode

/-- A text has no tokens exactly if the reading ends inside a comment or string,
and the error is the place where that was opened. More text mends it. No number
that the scanner meets gives another error. -/
theorem scan_error_iff_unclosed (source : Bytes) :
    ((∃ error, scan source = .error error) ↔
        ∃ what escaped, Region.code.after source = .inside what escaped) ∧
      (∀ pos what, scan source = .error ⟨pos, what⟩ ↔ UnclosedAt source pos what) ∧
      (∀ error, scan source = .error error → (Failure.lex error).isIncomplete ∧
        ∃ rest tokens, scan (source ++ rest) = .ok tokens) ∧
      ∀ token ∈ met source, token.IsReadable := by
  have inside_of_scan {error : LexError} (failed : scan source = .error error) :
      ∃ escaped, Region.code.after source = .inside error.unterminated escaped :=
    (unclosedAt_of_scan failed).exists_after
  refine ⟨⟨?_, ?_⟩, fun pos what => ⟨unclosedAt_of_scan, scan_of_unclosedAt⟩, ?_, ?_⟩
  · rintro ⟨error, failed⟩
    exact ⟨error.unterminated, inside_of_scan failed⟩
  · rintro ⟨what, escaped, inside⟩
    cases scanned : scan source with
    | error error => exact ⟨error, rfl⟩
    | ok tokens =>
        rw [(exists_scan_eq_ok_iff source).mp ⟨tokens, scanned⟩] at inside
        cases inside
  · intro error failed
    obtain ⟨escaped, inside⟩ := inside_of_scan failed
    obtain ⟨rest, closed⟩ := Region.exists_after_inside error.unterminated escaped
    refine ⟨rfl, rest, (exists_scan_eq_ok_iff _).mpr ?_⟩
    rw [Region.after_append, inside, closed]
  · have started : Mode.between.IsStarted 0 := trivial
    exact Mode.isReadable_run started source

-- The hash is inside the string, and the quote after the backslash does not close it.
example : scan (utf8 "#\\##1 \"# \\\"") = .error ⟨6, .string⟩ := by rfl

end Token

end Juxta
