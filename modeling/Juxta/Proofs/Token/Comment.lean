/-
# Comments are transparent

A comment leaves a pending word or operator as it is and ends only a number,
which a byte other than a digit, a point or an underscore ends as well. So a
comment between two texts changes no token, unless it keeps two numbers apart.

Behind the comment the second text goes on with the pending word. It completes
the word somewhere, and from there on it is scanned as if it stood alone; or it
ends inside a comment of its own. In both cases the place where the word started
and the place where the second text starts have nothing to do with each other,
so that what begins in the second text moves and all else stays.
-/

import Juxta.Proofs.Token.Outline
import Juxta.Proofs.Token.Shift

namespace Juxta.Token

/-- What can stand inside a comment: a backslash takes the byte behind it, which
must be there, and a hash stands only where a backslash takes it. -/
inductive IsCommentBody : Bytes → Prop
  | nil : IsCommentBody []
  | plain {byte : UInt8} {rest : Bytes} (noHash : byte ≠ Ascii.hash)
      (noBackslash : byte ≠ Ascii.backslash) (later : IsCommentBody rest) :
      IsCommentBody (byte :: rest)
  | escaped (byte : UInt8) {rest : Bytes} (later : IsCommentBody rest) :
      IsCommentBody (Ascii.backslash :: byte :: rest)

/-- A comment with its marks. -/
def comment (body : Bytes) : Bytes := Ascii.hash :: body ++ [Ascii.hash]

/-- The bytes that numbers are made of. -/
def isFigure (byte : UInt8) : Bool :=
  Ascii.isDigit byte || byte = Ascii.point || byte = Ascii.underscore

/-- Whether two texts meet between two bytes of which numbers are made. -/
def meetInFigures (first second : Bytes) : Bool :=
  first.getLast?.any isFigure && second.head?.any isFigure

theorem map_append_map (early late : List Token) (result : Except LexError (List Token)) :
    (result.map (late ++ ·)).map (early ++ ·) = result.map (early ++ late ++ ·) := by
  cases result with
  | error error => rfl
  | ok tokens => simp [Except.map]

namespace Mode

/-- The tokens of a text that is read on from a mode at an offset. -/
def complete (mode : Mode) (pos : Nat) (source : Bytes) : Except LexError (List Token) :=
  let (tokens, last) := mode.run pos source
  last.finish.map (tokens ++ ·)

theorem complete_nil (mode : Mode) (pos : Nat) : mode.complete pos [] = mode.finish := by
  simp only [complete, run, List.nil_append]
  cases mode.finish <;> rfl

theorem complete_append (mode : Mode) (pos : Nat) (first second : Bytes) :
    mode.complete pos (first ++ second) =
      ((mode.run pos first).2.complete (pos + first.length) second).map
        ((mode.run pos first).1 ++ ·) := by
  simp only [complete, run_append, map_append_map]

theorem complete_cons (mode : Mode) (pos : Nat) (byte : UInt8) (rest : Bytes) :
    mode.complete pos (byte :: rest) =
      ((mode.step pos byte).2.complete (pos + 1) rest).map ((mode.step pos byte).1 ++ ·) := by
  have split := complete_append mode pos [byte] rest
  simpa [run] using split

/-- A text that completes no token only leads from mode to mode. -/
theorem complete_append_of_quiet {mode later : Mode} {pos : Nat} {first : Bytes}
    (quiet : mode.run pos first = ([], later)) (second : Bytes) :
    mode.complete pos (first ++ second) = later.complete (pos + first.length) second := by
  rw [complete_append, quiet]
  cases later.complete (pos + first.length) second <;> rfl

theorem step_ofPending (word : Option Pending) (pos : Nat) (byte : UInt8) :
    (ofPending word).step pos byte = stepPlain word pos byte := by
  cases word <;> rfl

theorem finish_ofPending (word : Option Pending) :
    (ofPending word).finish = .ok (Pending.flush word) := by
  cases word <;> rfl

/-- What a comment makes of a mode that could end: the tokens that it completes,
and the word or operator that it interrupts. -/
def interrupted : Mode → List Token × Option Pending
  | pending word => ([], some word)
  | number figures => ([figures.token], figures.pending?)
  | _ => ([], none)

variable {mode : Mode} {tokens : List Token}

theorem finish_eq_ok (finished : mode.finish = .ok tokens) :
    tokens = mode.interrupted.1 ++ Pending.flush mode.interrupted.2 := by
  cases mode with
  | between | pending | number =>
      cases finished
      rfl
  | comment | string => cases finished

theorem step_hash (finished : mode.finish = .ok tokens) (pos : Nat) :
    mode.step pos Ascii.hash = (mode.interrupted.1, .comment pos false mode.interrupted.2) := by
  cases mode with
  | between | pending | number => rfl
  | comment | string => cases finished

/-- Unless it goes on with a number, a text does to a mode that could end what it
does behind a comment. -/
theorem complete_eq_interrupted (finished : mode.finish = .ok tokens) {source : Bytes}
    (apart : ∀ figures, mode = number figures →
      ∀ byte ∈ source.head?, figures.accepts byte = false) (pos : Nat) :
    mode.complete pos source =
      ((ofPending mode.interrupted.2).complete pos source).map (mode.interrupted.1 ++ ·) := by
  have quiet (other : Mode) : other.complete pos source =
      (other.complete pos source).map (([] : List Token) ++ ·) := by
    cases other.complete pos source <;> rfl
  cases mode with
  | between => exact quiet between
  | pending word => exact quiet (pending word)
  | comment | string => cases finished
  | number figures =>
      simp only [interrupted]
      cases source with
      | nil =>
          rw [complete_nil, complete_nil, finish_ofPending]
          rfl
      | cons byte rest =>
          have refused := apart figures rfl byte rfl
          rw [complete_cons, complete_cons, step_ofPending, step, stepNumber,
            if_neg (by simp [refused])]
          cases (stepPlain figures.pending? pos byte).2.complete (pos + 1) rest <;> rfl

end Mode

section Inside

/-- A comment ends at the first hash that no backslash takes. -/
theorem run_comment_body {body : Bytes} (isBody : IsCommentBody body) (start pos : Nat)
    (interrupted : Option Pending) :
    (Mode.comment start false interrupted).run pos (body ++ [Ascii.hash]) =
      ([], .ofPending interrupted) := by
  induction isBody generalizing pos with
  | nil => rfl
  | plain noHash noBackslash later ih =>
      simp [Mode.run, Mode.step, stepComment, noBackslash, noHash, ih]
  | escaped byte later ih => simp [Mode.run, Mode.step, stepComment, ih]

/-- A comment keeps a pending word or operator, and ends a number. -/
theorem run_comment {mode : Mode} {tokens : List Token} (finished : mode.finish = .ok tokens)
    {body : Bytes} (isBody : IsCommentBody body) (pos : Nat) :
    mode.run pos (comment body) = (mode.interrupted.1, .ofPending mode.interrupted.2) := by
  rw [comment, List.cons_append, Mode.run, Mode.step_hash finished, run_comment_body isBody]
  simp

/-- Behind the mark that opens a comment, a text closes the comment or ends
inside it. -/
theorem comment_cases : ∀ source : Bytes,
    (∃ body rest, source = body ++ Ascii.hash :: rest ∧ IsCommentBody body) ∨
      ∀ start interrupted pos, (Mode.comment start false interrupted).complete pos source =
        .error ⟨start, .comment⟩
  | [] => .inr fun _ _ _ => rfl
  | byte :: rest => by
      by_cases isBackslash : byte = Ascii.backslash
      · subst isBackslash
        -- The backslash takes a byte with it, and the rest decides.
        match rest with
        | [] => exact .inr fun _ _ _ => rfl
        | taken :: rest =>
            rcases comment_cases rest with ⟨body, behind, rfl, isBody⟩ | unclosed
            · exact .inl ⟨_, behind, rfl, .escaped taken isBody⟩
            · right
              intro start interrupted pos
              have skipped : (Mode.comment start false interrupted).run pos
                  [Ascii.backslash, taken] = ([], .comment start false interrupted) := rfl
              exact (Mode.complete_append_of_quiet skipped rest).trans (unclosed ..)
      · by_cases isHash : byte = Ascii.hash
        · subst isHash
          exact .inl ⟨[], rest, rfl, .nil⟩
        · rcases comment_cases rest with ⟨body, behind, rfl, isBody⟩ | unclosed
          · exact .inl ⟨_, behind, rfl, .plain isHash isBackslash isBody⟩
          · right
            intro start interrupted pos
            have skipped : (Mode.comment start false interrupted).run pos [byte] =
                ([], .comment start false interrupted) := by
              simp [Mode.run, Mode.step, stepComment, isBackslash, isHash]
            exact (Mode.complete_append_of_quiet skipped rest).trans (unclosed ..)

end Inside

section Resuming

/-- What a byte does to a pending word or operator: a hash interrupts it, some
bytes lengthen it, and all others end it and are read as if it were not there.
Where the word started and where the byte stands does not matter. -/
theorem stepPlain_some_cases (isWord : Bool) (reversed : Bytes) (byte : UInt8) :
    byte = Ascii.hash ∨
      (∀ start pos, stepPlain (some ⟨isWord, start, reversed⟩) pos byte =
        ([], .pending ⟨isWord, start, byte :: reversed⟩)) ∨
      ∀ start pos, stepPlain (some ⟨isWord, start, reversed⟩) pos byte =
        ((Pending.mk isWord start reversed).token :: (stepPlain none pos byte).1,
          (stepPlain none pos byte).2) := by
  have extended {sort : Bool} :
      (∀ start pos, Pending.extend sort pos byte (some ⟨isWord, start, reversed⟩) =
        ([], .pending ⟨isWord, start, byte :: reversed⟩)) ∨
      ∀ start pos, Pending.extend sort pos byte (some ⟨isWord, start, reversed⟩) =
        ((Pending.mk isWord start reversed).token :: (Pending.extend sort pos byte none).1,
          (Pending.extend sort pos byte none).2) := by
    by_cases same : isWord = sort
    · exact .inl fun start pos => by simp [Pending.extend, same]
    · exact .inr fun start pos => by simp [Pending.extend, same]
  have isHash : ∀ byte : UInt8, ByteClass.of byte = .hash → byte = Ascii.hash :=
    forall_byte (by decide +kernel)
  unfold stepPlain
  cases sort : ByteClass.of byte with
  | hash => exact .inl (isHash byte sort)
  | quote | blank | bracket | special | null | infinity | digit =>
      exact .inr (.inr fun start pos => rfl)
  | operator | word => exact .inr extended

/-- A text that follows a pending word or operator completes it with some of its
bytes, and the rest is scanned as if it stood alone; or the text ends inside a
comment. None of this depends on where the word and the text start. -/
def Resumes (isWord : Bool) (reversed source : Bytes) : Prop :=
  (∃ kind text taken, ∀ start pos,
    (Mode.pending ⟨isWord, start, reversed⟩).complete pos source =
      (scanFrom (pos + taken) (source.drop taken)).map (⟨kind, text, start⟩ :: ·)) ∨
  ∃ offset, ∀ start pos, (Mode.pending ⟨isWord, start, reversed⟩).complete pos source =
    .error ⟨pos + offset, .comment⟩

theorem Resumes.append {isWord : Bool} {reversed reversed' front rest : Bytes}
    (quiet : ∀ start pos, (Mode.pending ⟨isWord, start, reversed⟩).run pos front =
      ([], .pending ⟨isWord, start, reversed'⟩))
    (later : Resumes isWord reversed' rest) : Resumes isWord reversed (front ++ rest) := by
  rcases later with ⟨kind, text, taken, completed⟩ | ⟨offset, broken⟩
  · refine .inl ⟨kind, text, front.length + taken, fun start pos => ?_⟩
    rw [Mode.complete_append_of_quiet (quiet start pos), completed, Nat.add_assoc,
      List.drop_length_add_append]
  · refine .inr ⟨front.length + offset, fun start pos => ?_⟩
    rw [Mode.complete_append_of_quiet (quiet start pos), broken, Nat.add_assoc]

theorem resumes (isWord : Bool) (reversed source : Bytes) : Resumes isWord reversed source := by
  let kind : Kind := if isWord then .word else .operator
  -- A comment is passed in one go, so the induction is on the length of the text.
  induction length : source.length using Nat.strongRecOn generalizing source reversed with
  | ind size ih =>
      cases source with
      | nil => exact .inl ⟨kind, reversed.reverse, 0, fun start pos => rfl⟩
      | cons byte rest =>
          rcases stepPlain_some_cases isWord reversed byte with rfl | lengthened | ended
          · rcases comment_cases rest with ⟨body, behind, rfl, isBody⟩ | unclosed
            · have whole : Ascii.hash :: (body ++ Ascii.hash :: behind) =
                  comment body ++ behind := by simp [comment]
              have shorter : behind.length < size := by
                rw [← length, whole, comment]
                simp
                omega
              rw [whole]
              exact .append (fun start pos => run_comment rfl isBody pos)
                (ih _ shorter reversed behind rfl)
            · refine .inr ⟨0, fun start pos => ?_⟩
              have opened : (Mode.pending ⟨isWord, start, reversed⟩).run pos [Ascii.hash] =
                  ([], .comment pos false (some ⟨isWord, start, reversed⟩)) := rfl
              exact (Mode.complete_append_of_quiet opened rest).trans (unclosed ..)
          · have shorter : rest.length < size := by
              rw [← length]
              exact Nat.lt_succ_self _
            have quiet (start pos : Nat) : (Mode.pending ⟨isWord, start, reversed⟩).run pos [byte] =
                ([], .pending ⟨isWord, start, byte :: reversed⟩) := by
              rw [Mode.run, Mode.step, lengthened]
              rfl
            exact .append quiet (ih _ shorter _ rest rfl)
          · refine .inl ⟨kind, reversed.reverse, 0, fun start pos => ?_⟩
            have alone : scanFrom pos (byte :: rest) =
                ((stepPlain none pos byte).2.complete (pos + 1) rest).map
                  ((stepPlain none pos byte).1 ++ ·) := Mode.complete_cons .between pos byte rest
            rw [Mode.complete_cons, Mode.step, ended, Nat.add_zero pos, List.drop_zero, alone]
            cases (stepPlain none pos byte).2.complete (pos + 1) rest <;> rfl

/-- What becomes of a text behind a pending word or operator, or behind none: the
word becomes a token, some bytes are passed, and the rest is scanned as if it
stood alone, wherever the text starts. -/
theorem complete_ofPending (word : Option Pending) (source : Bytes) :
    (∃ (made : List Token) (taken : Nat),
      (∀ token ∈ made, ∃ held ∈ Pending.flush word, token.pos = held.pos) ∧
      ∀ pos, (Mode.ofPending word).complete pos source =
        (scanFrom (pos + taken) (source.drop taken)).map (made ++ ·)) ∨
    ∃ offset, ∀ pos, (Mode.ofPending word).complete pos source =
      .error ⟨pos + offset, .comment⟩ := by
  cases word with
  | none =>
      refine .inl ⟨[], 0, by simp, fun pos => ?_⟩
      rw [Nat.add_zero, List.drop_zero]
      cases same : scanFrom pos source <;> exact same
  | some pending =>
      rcases resumes pending.isWord pending.reversed source with
        ⟨kind, text, taken, completed⟩ | ⟨offset, broken⟩
      · refine .inl ⟨[⟨kind, text, pending.start⟩], taken, ?_, fun pos => completed _ pos⟩
        intro token mem
        obtain rfl := List.mem_singleton.mp mem
        exact ⟨pending.token, List.mem_singleton_self _, rfl⟩
      · exact .inr ⟨offset, fun pos => broken _ pos⟩

end Resuming

section Seam

theorem isFigure_of_accepts {figures : Figures} {byte : UInt8} (accepted : figures.accepts byte) :
    isFigure byte := by
  simp only [Figures.accepts, Bool.or_eq_true, decide_eq_true_eq, Bool.and_eq_true] at accepted
  simp only [isFigure, Bool.or_eq_true, decide_eq_true_eq]
  tauto

theorem isFigure_of_stepPlain {word : Option Pending} {pos : Nat} {byte : UInt8}
    {figures : Figures} (stepped : (stepPlain word pos byte).2 = .number figures) :
    isFigure byte := by
  have notExtended (isWord : Bool) :
      (Pending.extend isWord pos byte word).2 ≠ .number figures := by
    unfold Pending.extend
    split
    · split <;> simp
    · simp
  unfold stepPlain at stepped
  cases sort : ByteClass.of byte with
  | digit => simp [isFigure, ByteClass.isDigit_of byte sort]
  | operator | word =>
      rw [sort] at stepped
      exact absurd stepped (notExtended _)
  | _ =>
      rw [sort] at stepped
      cases stepped

theorem isFigure_of_step {mode : Mode} {pos : Nat} {byte : UInt8} {figures : Figures}
    (stepped : (mode.step pos byte).2 = .number figures) : isFigure byte := by
  cases mode with
  | between => exact isFigure_of_stepPlain stepped
  | pending word => exact isFigure_of_stepPlain stepped
  | comment start escaped interrupted =>
      cases interrupted <;>
      simp only [Mode.step, stepComment, Mode.ofPending] at stepped <;>
      split_ifs at stepped
  | string literal =>
      simp only [Mode.step, stepString] at stepped
      split_ifs at stepped
  | number figures' =>
      simp only [Mode.step, stepNumber] at stepped
      split at stepped
      next accepted => exact isFigure_of_accepts accepted
      next => exact isFigure_of_stepPlain stepped

/-- A text that ends in a number ends in a byte of it. -/
theorem isFigure_of_run {pos : Nat} {source : Bytes} {figures : Figures}
    (run : (Mode.between.run pos source).2 = .number figures) :
    source.getLast?.any isFigure := by
  rcases List.eq_nil_or_concat source with rfl | ⟨front, byte, rfl⟩
  · cases run
  · rw [List.concat_eq_append, Mode.run_append] at run
    simpa using isFigure_of_step run

theorem shift_shift (first second : Nat) (token : Token) :
    (token.shift first).shift second = token.shift (first + second) := by
  simp [shift, Int.add_assoc]

theorem error_shift_shift (first second : Nat) (error : LexError) :
    (error.shift first).shift second = error.shift (first + second) := by
  simp [LexError.shift, Nat.add_assoc]

/-- Every token of a source starts in it. -/
theorem offset_of_scan {source : Bytes} {tokens : List Token} (scanned : scan source = .ok tokens) :
    ∀ token ∈ tokens, ∃ offset : Nat, token.pos = offset ∧ offset < source.length := by
  intro token mem
  have started : Mode.between.IsStarted 0 := trivial
  have begun := Mode.beginnings_run started source
  rw [← scan_eq_ok scanned] at begun
  obtain ⟨⟨byte, offset⟩, found, same⟩ :=
    List.mem_map.mp (begun.subset (List.mem_map_of_mem mem))
  refine ⟨offset, (congrArg Prod.snd same).symm, ?_⟩
  exact (List.getElem?_eq_some_iff.mp (List.mk_mem_zipIdx_iff_getElem?.mp found)).1

/-- A text that can be scanned leaves some tokens and perhaps a pending word. What
follows goes on with the word, at once or behind a comment. -/
theorem exists_seam {first : Bytes} {tokens : List Token} (scanned : scan first = .ok tokens) :
    ∃ front word, front ++ Pending.flush word = tokens ∧
      (∀ second, meetInFigures first second = false →
        scan (first ++ second) =
          ((Mode.ofPending word).complete first.length second).map (front ++ ·)) ∧
      ∀ body second, IsCommentBody body →
        scan (first ++ comment body ++ second) =
          ((Mode.ofPending word).complete (first.length + (body.length + 2)) second).map
            (front ++ ·) := by
  have goesOn (more : Bytes) := Mode.complete_append .between 0 first more
  rw [Nat.zero_add] at goesOn
  rw [scan] at scanned
  generalize reached : Mode.between.run 0 first = result at scanned goesOn
  obtain ⟨early, mode⟩ := result
  cases finished : mode.finish with
  | error error => simp [finished, Except.map] at scanned
  | ok last =>
      have whole : early ++ last = tokens := by simpa [finished, Except.map] using scanned
      refine ⟨early ++ mode.interrupted.1, mode.interrupted.2, ?_, ?_, ?_⟩
      · rw [List.append_assoc, ← Mode.finish_eq_ok finished, whole]
      · intro second apart
        have refused : ∀ figures, mode = .number figures →
            ∀ byte ∈ second.head?, figures.accepts byte = false := by
          rintro figures rfl byte isFirst
          have endsInFigure := isFigure_of_run (congrArg Prod.snd reached)
          rw [meetInFigures, endsInFigure, Option.mem_def.mp isFirst] at apart
          cases accepted : figures.accepts byte with
          | false => rfl
          | true => exact absurd (isFigure_of_accepts accepted) (by simpa using apart)
        refine (goesOn second).trans ?_
        simp only [Mode.complete_eq_interrupted finished refused, map_append_map]
      · intro body second isBody
        rw [List.append_assoc]
        refine (goesOn (comment body ++ second)).trans ?_
        have length : (comment body).length = body.length + 2 := by simp [comment]
        simp only [Mode.complete_append, run_comment finished isBody, length, map_append_map]

end Seam

/-- A comment between two texts changes no token, no value and no error, unless
it stands between two bytes of which numbers are made. What begins in the second
text moves by the length of the comment, and all else stays where it is. -/
theorem scan_insert_comment {first second body : Bytes} {tokens : List Token}
    (scanned : scan first = .ok tokens) (isBody : IsCommentBody body)
    (apart : meetInFigures first second = false) :
    (∃ early late, scan (first ++ second) = .ok (early ++ late) ∧
      scan (first ++ comment body ++ second) =
        .ok (early ++ late.map (Token.shift (body.length + 2))) ∧
      (∀ token ∈ early, token.pos < first.length) ∧
      ∀ token ∈ late, (first.length : Int) ≤ token.pos) ∨
    ∃ error, scan (first ++ second) = .error error ∧
      scan (first ++ comment body ++ second) = .error (error.shift (body.length + 2)) ∧
      first.length ≤ error.pos := by
  obtain ⟨front, word, same, plain, commented⟩ := exists_seam scanned
  replace plain := plain second apart
  replace commented := commented body second isBody
  have inFirst : ∀ token ∈ front ++ Pending.flush word, token.pos < first.length := by
    rw [same]
    intro token mem
    obtain ⟨offset, place, inside⟩ := offset_of_scan scanned token mem
    omega
  rcases complete_ofPending word second with ⟨made, taken, held, completed⟩ | ⟨offset, broken⟩
  · have farther : first.length + (body.length + 2) + taken =
        first.length + taken + (body.length + 2) := Nat.add_right_comm _ _ _
    rw [completed, scanFrom_eq_shift] at plain commented
    rw [farther] at commented
    cases alone : scan (second.drop taken) with
    | ok later =>
        rw [alone] at plain commented
        refine .inl ⟨front ++ made, later.map (Token.shift (first.length + taken)), ?_, ?_, ?_, ?_⟩
        · rw [plain]
          simp [Except.map]
        · rw [commented]
          simp [Except.map, shift_shift]
        · intro token mem
          rcases List.mem_append.mp mem with mem | mem
          · exact inFirst token (List.mem_append_left _ mem)
          · obtain ⟨other, isHeld, place⟩ := held token mem
            rw [place]
            exact inFirst other (List.mem_append_right _ isHeld)
        · intro token mem
          obtain ⟨other, found, rfl⟩ := List.mem_map.mp mem
          obtain ⟨offset, place, inside⟩ := offset_of_scan alone other found
          simp only [shift, place]
          omega
    | error error =>
        rw [alone] at plain commented
        refine .inr ⟨error.shift (first.length + taken), plain, ?_, ?_⟩
        · rw [commented, error_shift_shift]
          rfl
        · simp only [LexError.shift]
          omega
  · rw [broken] at plain commented
    refine .inr ⟨_, plain, ?_, by simp⟩
    rw [commented, Nat.add_right_comm]
    rfl

theorem scan_insert_comment_inWord :
    let first := utf8 "1._.#n# ab"
    let second := utf8 "c+\"d\""
    let body := utf8 "x\\#"
    scan first = .ok [⟨.number ⟨1, 1⟩, utf8 "1._", 0⟩, ⟨.operator, utf8 ".", 3⟩,
        ⟨.word, utf8 "ab", 8⟩] ∧ IsCommentBody body ∧ meetInFigures first second = false ∧
      ∃ early late, scan (first ++ second) = .ok (early ++ late) ∧
        scan (utf8 "1._.#n# ab#x\\##c+\"d\"") = .ok (early ++ late.map (Token.shift 5)) ∧
        (∀ token ∈ early, token.pos < 10) ∧ ∀ token ∈ late, 10 ≤ token.pos := by
  intro first second body
  have scanned : scan first = .ok [⟨.number ⟨1, 1⟩, utf8 "1._", 0⟩, ⟨.operator, utf8 ".", 3⟩,
      ⟨.word, utf8 "ab", 8⟩] := by rfl
  have isBody : IsCommentBody body := .plain (by decide) (by decide) (.escaped Ascii.hash .nil)
  have apart : meetInFigures first second = false := by rfl
  refine ⟨scanned, isBody, apart, ?_⟩
  rcases scan_insert_comment scanned isBody apart with result | ⟨error, failed, _⟩
  · exact result
  · cases failed

end Juxta.Token
