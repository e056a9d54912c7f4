/-
# What becomes of every byte

Which bytes of a source text belong to tokens can be told without knowing any
token: all but white space outside strings, and comments with their marks. A
reading that only tells code, strings and comments apart keeps those bytes. The
scanner keeps the same bytes in the same order. To see this, whatever is
unfinished in a mode counts as tokens already: a byte then either is dropped,
lengthens the last of these tokens, or starts a new one at its own offset.
-/

import Juxta.Proofs.Token.Scan
import Mathlib.Data.List.Basic

namespace Juxta.Token

/-- Whether a reading of a source text stands in code or inside a comment or a
string, where the next byte may be escaped. -/
inductive Region
  | code
  | inside (what : Open) (escaped : Bool)
  deriving DecidableEq, Repr

/-- The byte that opens and closes a comment or a string. -/
def Open.mark : Open → UInt8
  | comment => Ascii.hash
  | string => Ascii.quote

namespace Region

/-- Where a reading stands after a byte. -/
def next (region : Region) (byte : UInt8) : Region :=
  match region with
  | code =>
      if byte = Open.comment.mark then inside .comment false
      else if byte = Open.string.mark then inside .string false
      else code
  | inside what escaped =>
      if escaped then inside what false
      else if byte = Ascii.backslash then inside what true
      else if byte = what.mark then code
      else inside what false

/-- Whether a byte belongs to a token. -/
def keeps (region : Region) (byte : UInt8) : Bool :=
  match region with
  | code => byte != Open.comment.mark && !isBlankByte byte
  | inside .comment _ => false
  | inside .string _ => true

/-- The bytes of a text that belong to tokens. -/
def significant (region : Region) : Bytes → Bytes
  | [] => []
  | byte :: rest =>
      let later := (region.next byte).significant rest
      if region.keeps byte then byte :: later else later

end Region

/-- A source text without its comments, and without its white space outside strings. -/
def significant (source : Bytes) : Bytes := Region.code.significant source

/-- The texts of tokens, put together. -/
def texts (tokens : List Token) : Bytes := tokens.flatMap text

/-- The first byte of a token and its offset. -/
def beginning (token : Token) : Option UInt8 × Int := (token.text.head?, token.pos)

/-- A byte at an offset, as the beginning of a token. -/
def beginningAt (entry : UInt8 × Nat) : Option UInt8 × Int := (some entry.1, entry.2)

namespace Mode

/-- Where the reading stands when the scanner is in a mode. -/
def region : Mode → Region
  | between | pending _ | number _ => .code
  | comment _ escaped _ => .inside .comment escaped
  | string literal => .inside .string literal.escaped

/-- The tokens that a mode holds back, as far as they have been read. -/
def unfinished : Mode → List Token
  | between => []
  | pending word => [word.token]
  | comment _ _ interrupted => Pending.flush interrupted
  | string literal => [⟨.string literal.decoded.reverse, literal.reversed.reverse, literal.start⟩]
  | number figures => figures.token :: Pending.flush figures.pending?

/-- Something has been read of what is unfinished, and of a number everything up
to an offset, its first digit included. -/
def IsStarted (pos : Nat) : Mode → Prop
  | between => True
  | pending word => word.reversed ≠ []
  | comment _ _ interrupted => ∀ word ∈ interrupted, word.reversed ≠ []
  | string literal => literal.reversed ≠ []
  | number figures => figures.start + figures.reversed.length = pos ∧
      ∃ digit, figures.reversed.getLast? = some digit ∧ Ascii.isDigit digit

end Mode

/-- What a byte does when some tokens are held back: it moves the reading on, it
is kept if the reading keeps it, and no token begins anywhere but at it. -/
structure Accounts (before : Region) (held : List Token) (pos : Nat) (byte : UInt8)
    (result : List Token × Mode) : Prop where
  region : result.2.region = before.next byte
  texts : texts (result.1 ++ result.2.unfinished) =
    texts held ++ if before.keeps byte then [byte] else []
  beginnings : ((result.1 ++ result.2.unfinished).map beginning).Sublist
    (held.map beginning ++ [beginningAt (byte, pos)])
  isStarted : result.2.IsStarted (pos + 1)

namespace Accounts

variable {before : Region} {held : List Token} {pos : Nat} {byte : UInt8}
  {result : List Token × Mode}

/-- A token that is complete already has no part in it. -/
theorem cons (accounts : Accounts before held pos byte result) (token : Token) :
    Accounts before (token :: held) pos byte (token :: result.1, result.2) where
  region := accounts.region
  texts := by
    have same := accounts.texts
    simp only [Token.texts, List.cons_append, List.flatMap_cons, List.append_assoc] at same ⊢
    rw [same]
  beginnings := accounts.beginnings.cons_cons _
  isStarted := accounts.isStarted

/-- A byte that leaves the tokens as they are. -/
theorem of_dropped (moved : result.2.region = before.next byte)
    (dropped : before.keeps byte = false) (same : result.1 ++ result.2.unfinished = held)
    (isStarted : result.2.IsStarted (pos + 1)) : Accounts before held pos byte result where
  region := moved
  texts := by simp [same, dropped]
  beginnings := by
    rw [same]
    exact List.sublist_append_left _ _
  isStarted := isStarted

/-- A byte that begins a token. -/
theorem of_begun {kind : Kind} (moved : result.2.region = before.next byte)
    (kept : before.keeps byte = true)
    (begun : result.1 ++ result.2.unfinished = held ++ [⟨kind, [byte], pos⟩])
    (isStarted : result.2.IsStarted (pos + 1)) : Accounts before held pos byte result where
  region := moved
  texts := by simp [begun, kept, Token.texts]
  beginnings := by simp [begun, beginning, beginningAt]
  isStarted := isStarted

/-- A byte that lengthens the only token that is held back. -/
theorem of_lengthened {kind kind' : Kind} {reversed : Bytes} {start : Int}
    (moved : result.2.region = before.next byte) (kept : before.keeps byte = true)
    (nonempty : reversed ≠ [])
    (lengthened : result.1 ++ result.2.unfinished = [⟨kind', (byte :: reversed).reverse, start⟩])
    (isStarted : result.2.IsStarted (pos + 1)) :
    Accounts before [⟨kind, reversed.reverse, start⟩] pos byte result where
  region := moved
  texts := by simp [lengthened, kept, Token.texts]
  beginnings := by
    have begun : (reversed.reverse ++ [byte]).head? = reversed.reverse.head? :=
      List.head?_append_of_ne_nil _ (by simpa using nonempty)
    rw [lengthened]
    simp only [List.map_cons, List.map_nil, beginning, List.reverse_cons, begun]
    exact List.sublist_append_left _ _
  isStarted := isStarted

end Accounts

variable {pos : Nat} {byte : UInt8}

/-- How the reading takes a byte of a class outside comments and strings. -/
def ByteClass.ReadsAs (byte : UInt8) : ByteClass → Prop
  | hash => Region.code.next byte = .inside .comment false ∧ Region.code.keeps byte = false
  | quote => Region.code.next byte = .inside .string false ∧ Region.code.keeps byte = true
  | blank => Region.code.next byte = .code ∧ Region.code.keeps byte = false
  | other => (Region.code.next byte = .code ∧ Region.code.keeps byte = true) ∧
      (other = digit → Ascii.isDigit byte)

theorem ByteClass.readsAs_of (byte : UInt8) : (of byte).ReadsAs byte := by
  unfold of
  refine iteInduction (fun isHash => ?_) fun notHash => ?_
  · subst isHash
    exact ⟨rfl, rfl⟩
  refine iteInduction (fun isQuote => ?_) fun notQuote => ?_
  · subst isQuote
    exact ⟨rfl, rfl⟩
  have stays : Region.code.next byte = .code := by
    simp [Region.next, Open.mark, notHash, notQuote]
  refine iteInduction (fun isBlank => ⟨stays, by simp [Region.keeps, isBlank]⟩) fun notBlank => ?_
  have kept : Region.code.keeps byte = true := by
    simp [Region.keeps, Open.mark, notHash, notBlank]
  refine iteInduction (fun _ => ⟨⟨stays, kept⟩, nofun⟩) fun _ => ?_
  refine iteInduction (fun _ => ⟨⟨stays, kept⟩, nofun⟩) fun _ => ?_
  refine iteInduction (fun _ => ⟨⟨stays, kept⟩, nofun⟩) fun _ => ?_
  refine iteInduction (fun _ => ⟨⟨stays, kept⟩, nofun⟩) fun _ => ?_
  refine iteInduction (fun isDigit => ⟨⟨stays, kept⟩, fun _ => isDigit⟩) fun _ => ?_
  exact iteInduction (fun _ => ⟨⟨stays, kept⟩, nofun⟩) fun _ => ⟨⟨stays, kept⟩, nofun⟩

section Figures

theorem Figures.reversed_of_endsInPoint {figures : Figures} (ends : figures.endsInPoint) :
    figures.reversed = Ascii.point :: figures.reversed.tail := by
  rw [Figures.endsInPoint, beq_iff_eq] at ends
  exact List.eq_cons_of_mem_head? ends

/-- All bytes of an unfinished number are in the tokens that it holds back. -/
theorem texts_number (figures : Figures) :
    texts (Mode.number figures).unfinished = figures.reversed.reverse := by
  cases ends : figures.endsInPoint with
  | false =>
      simp [texts, Mode.unfinished, Figures.token, Figures.pending?, Pending.flush, ends]
  | true =>
      have same := Figures.reversed_of_endsInPoint ends
      conv_rhs => rw [same]
      simp [texts, Mode.unfinished, Figures.token, Figures.pending?, Pending.flush, ends,
        Pending.token]

/-- An unfinished number begins with its first digit, and the point at its end,
if there is one, is the beginning of another token. -/
theorem beginnings_number {figures : Figures} {digit : UInt8}
    (first : figures.reversed.getLast? = some digit) (isDigit : Ascii.isDigit digit) :
    (Mode.number figures).unfinished.map beginning =
      beginningAt (digit, figures.start) ::
        if figures.endsInPoint then
          [beginningAt (Ascii.point, figures.start + (figures.reversed.length - 1))]
        else [] := by
  cases ends : figures.endsInPoint with
  | false =>
      simp [Mode.unfinished, Figures.token, Figures.pending?, Pending.flush, ends, beginning,
        beginningAt, first]
  | true =>
      -- The point is not all of the number, since the first byte is a digit.
      have same := Figures.reversed_of_endsInPoint ends
      have earlier : figures.reversed.tail.getLast? = some digit := by
        rw [same, List.getLast?_cons] at first
        cases rest : figures.reversed.tail.getLast? with
        | none =>
            rw [rest] at first
            cases first
            exact absurd rfl (ne_point_of_isDigit isDigit)
        | some other => rwa [rest] at first
      simp [Mode.unfinished, Figures.token, Figures.pending?, Pending.flush, ends, beginning,
        beginningAt, earlier, Pending.token]

end Figures

theorem accounts_extend {word : Option Pending} (started : ∀ pending ∈ word, pending.reversed ≠ [])
    (isWord : Bool) (moved : Region.code.next byte = .code) (kept : Region.code.keeps byte = true) :
    Accounts .code (Pending.flush word) pos byte (Pending.extend isWord pos byte word) := by
  have begun (tokens : List Token) :
      Accounts .code tokens pos byte (tokens, .pending ⟨isWord, pos, [byte]⟩) :=
    .of_begun moved.symm kept rfl (List.cons_ne_nil _ _)
  cases word with
  | none => exact begun []
  | some current =>
      rw [Pending.extend]
      split
      · exact .of_lengthened moved.symm kept (started current rfl) rfl (List.cons_ne_nil _ _)
      · exact begun [current.token]

theorem accounts_stepPlain {word : Option Pending}
    (started : ∀ pending ∈ word, pending.reversed ≠ []) :
    Accounts .code (Pending.flush word) pos byte (stepPlain word pos byte) := by
  have reads := ByteClass.readsAs_of byte
  unfold stepPlain
  generalize ByteClass.of byte = sort at reads
  cases sort with
  | hash => exact .of_dropped reads.1.symm reads.2 rfl started
  | quote => exact .of_begun reads.1.symm reads.2 rfl (List.cons_ne_nil _ _)
  | blank => exact .of_dropped reads.1.symm reads.2 (List.append_nil _) trivial
  | bracket | special | null | infinity =>
      exact .of_begun reads.1.1.symm reads.1.2 (List.append_nil _) trivial
  | digit =>
      have isDigit := reads.2 rfl
      have whole : (Figures.mk pos [byte] false).endsInPoint = false := by
        simpa [Figures.endsInPoint] using ne_point_of_isDigit isDigit
      have begun : (Mode.number ⟨pos, [byte], false⟩).unfinished =
          [⟨.number (Figures.value [byte]), [byte], pos⟩] := by
        simp [Mode.unfinished, Figures.token, Figures.pending?, Pending.flush, whole]
      exact .of_begun reads.1.1.symm reads.1.2 (congrArg _ begun) ⟨rfl, byte, rfl, isDigit⟩
  | operator | word => exact accounts_extend started _ reads.1.1 reads.1.2

theorem Figures.reads_of_accepts {figures : Figures} (accepted : figures.accepts byte) :
    Region.code.next byte = .code ∧ Region.code.keeps byte = true := by
  simp only [accepts, Bool.or_eq_true, decide_eq_true_eq, Bool.and_eq_true] at accepted
  rcases accepted with (digit | rfl) | ⟨rfl, _⟩
  · have reads := ByteClass.readsAs_of byte
    rw [ByteClass.of_digit byte digit] at reads
    exact reads.1
  · exact ⟨rfl, rfl⟩
  · exact ⟨rfl, rfl⟩

theorem accounts_stepNumber {figures : Figures} (started : (Mode.number figures).IsStarted pos) :
    Accounts .code (Mode.number figures).unfinished pos byte (stepNumber figures pos byte) := by
  obtain ⟨place, digit, first, isDigit⟩ := started
  unfold stepNumber
  by_cases accepted : figures.accepts byte
  · rw [if_pos accepted]
    obtain ⟨moved, kept⟩ := Figures.reads_of_accepts accepted
    have later : (byte :: figures.reversed).getLast? = some digit := by
      rw [List.getLast?_cons, first]
      rfl
    refine ⟨moved.symm, ?_, ?_, ?_, digit, later, isDigit⟩
    · simp [texts_number, kept]
    · rw [List.nil_append, beginnings_number later isDigit, beginnings_number first isDigit]
      refine List.Sublist.cons_cons _ ?_
      -- A point that stood at the end is now inside the number, and only the new
      -- byte can be a point at the end.
      refine List.Sublist.trans ?_ (List.sublist_append_right _ _)
      split
      next ends =>
        obtain rfl : byte = Ascii.point := by simpa [Figures.endsInPoint] using ends
        simp [place]
      next => exact List.nil_sublist _
    · simp only [List.length_cons]
      omega
  · rw [if_neg accepted]
    refine Accounts.cons (accounts_stepPlain ?_) figures.token
    intro pending found
    unfold Figures.pending? at found
    split at found
    · cases found
      exact List.cons_ne_nil _ _
    · cases found

theorem accounts_stepString {literal : Literal} (started : literal.reversed ≠ []) :
    Accounts (.inside .string literal.escaped) (Mode.string literal).unfinished pos byte
      (stepString literal byte) := by
  have lengthened {result : List Token × Mode} {kind : Kind}
      (moved : result.2.region = (Region.inside .string literal.escaped).next byte)
      (same : result.1 ++ result.2.unfinished =
        [⟨kind, (byte :: literal.reversed).reverse, literal.start⟩])
      (isStarted : result.2.IsStarted (pos + 1)) :
      Accounts (.inside .string literal.escaped) (Mode.string literal).unfinished pos byte result :=
    .of_lengthened moved rfl started same isStarted
  unfold stepString
  split
  next escaped =>
    refine lengthened ?_ rfl (List.cons_ne_nil _ _)
    simp [Mode.region, Region.next, escaped]
  next unescaped =>
    split
    next isQuote =>
      refine lengthened ?_ rfl trivial
      simp [Mode.region, Region.next, unescaped, isQuote, Open.mark]
      decide
    next noQuote =>
      split
      next isBackslash =>
        refine lengthened ?_ rfl (List.cons_ne_nil _ _)
        simp [Mode.region, Region.next, unescaped, isBackslash]
      next noBackslash =>
        refine lengthened ?_ rfl (List.cons_ne_nil _ _)
        simp [Mode.region, Region.next, unescaped, noBackslash, noQuote, Open.mark]

theorem accounts_stepComment (start : Nat) (escaped : Bool) {interrupted : Option Pending}
    (started : ∀ pending ∈ interrupted, pending.reversed ≠ []) :
    Accounts (.inside .comment escaped) (Pending.flush interrupted) pos byte
      ([], stepComment start escaped interrupted byte) := by
  have resumed : (Mode.ofPending interrupted).region = .code ∧
      (Mode.ofPending interrupted).unfinished = Pending.flush interrupted ∧
      (Mode.ofPending interrupted).IsStarted (pos + 1) := by
    cases interrupted with
    | none => exact ⟨rfl, rfl, trivial⟩
    | some pending => exact ⟨rfl, rfl, started pending rfl⟩
  unfold stepComment
  split
  next isEscaped =>
    refine .of_dropped ?_ rfl rfl started
    simp [Mode.region, Region.next, isEscaped]
  next unescaped =>
    split
    next isBackslash =>
      refine .of_dropped ?_ rfl rfl started
      simp [Mode.region, Region.next, unescaped, isBackslash]
    next noBackslash =>
      split
      next isHash =>
        refine .of_dropped ?_ rfl resumed.2.1 resumed.2.2
        simp [resumed.1, Region.next, unescaped, isHash, Open.mark]
        decide
      next noHash =>
        refine .of_dropped ?_ rfl rfl started
        simp [Mode.region, Region.next, unescaped, noBackslash, noHash, Open.mark]

theorem Mode.accounts_step {mode : Mode} (started : mode.IsStarted pos) (byte : UInt8) :
    Accounts mode.region mode.unfinished pos byte (mode.step pos byte) := by
  cases mode with
  | between =>
      have nothing : ∀ pending ∈ (none : Option Pending), pending.reversed ≠ [] := by simp
      exact accounts_stepPlain nothing
  | pending word =>
      have single : ∀ pending ∈ some word, pending.reversed ≠ [] := by
        rintro _ ⟨⟩
        exact started
      exact accounts_stepPlain single
  | comment start escaped interrupted => exact accounts_stepComment start escaped started
  | string literal => exact accounts_stepString started
  | number figures => exact accounts_stepNumber started

theorem Region.significant_cons (region : Region) (byte : UInt8) (rest : Bytes) :
    region.significant (byte :: rest) =
      (if region.keeps byte then [byte] else []) ++ (region.next byte).significant rest := by
  rw [significant]
  split <;> rfl

theorem texts_append (first second : List Token) :
    texts (first ++ second) = texts first ++ texts second := List.flatMap_append

/-- The tokens of a run, with those that are held back after it, are made of the
bytes that the reading keeps. -/
theorem Mode.texts_run {mode : Mode} (started : mode.IsStarted pos) (source : Bytes) :
    texts ((mode.run pos source).1 ++ (mode.run pos source).2.unfinished) =
      texts mode.unfinished ++ mode.region.significant source := by
  induction source generalizing mode pos with
  | nil => simp [Mode.run, Region.significant]
  | cons byte rest ih =>
      have accounts := mode.accounts_step started byte
      rw [Mode.run]
      generalize mode.step pos byte = result at accounts
      obtain ⟨tokens, next⟩ := result
      have later := ih accounts.isStarted
      calc
        texts (tokens ++ (next.run (pos + 1) rest).1 ++ (next.run (pos + 1) rest).2.unfinished)
        _ = texts tokens ++ (texts next.unfinished ++ next.region.significant rest) := by
          rw [List.append_assoc, texts_append, later]
        _ = texts (tokens ++ next.unfinished) ++ next.region.significant rest := by
          rw [texts_append, List.append_assoc]
        _ = texts mode.unfinished ++ mode.region.significant (byte :: rest) := by
          rw [accounts.texts, accounts.region, Region.significant_cons, List.append_assoc]

/-- The tokens of a run, with those that are held back after it, begin at bytes
that were read, each farther on than the one before it. -/
theorem Mode.beginnings_run {mode : Mode} (started : mode.IsStarted pos) (source : Bytes) :
    (((mode.run pos source).1 ++ (mode.run pos source).2.unfinished).map beginning).Sublist
      (mode.unfinished.map beginning ++ (source.zipIdx pos).map beginningAt) := by
  induction source generalizing mode pos with
  | nil => simp [Mode.run]
  | cons byte rest ih =>
      have accounts := mode.accounts_step started byte
      rw [Mode.run]
      generalize mode.step pos byte = result at accounts
      obtain ⟨tokens, next⟩ := result
      have later := (ih accounts.isStarted).append_left (tokens.map beginning)
      have now := accounts.beginnings.append_right ((rest.zipIdx (pos + 1)).map beginningAt)
      simp only [List.map_append, List.append_assoc, List.zipIdx_cons, List.map_cons,
        List.singleton_append] at later now ⊢
      exact later.trans now

theorem Mode.unfinished_of_finish {mode : Mode} {tokens : List Token}
    (finished : mode.finish = .ok tokens) : mode.unfinished = tokens := by
  cases mode with
  | between | pending | number =>
      cases finished
      rfl
  | comment | string => cases finished

theorem scan_eq_ok {source : Bytes} {tokens : List Token} (scanned : scan source = .ok tokens) :
    tokens = (Mode.between.run 0 source).1 ++ (Mode.between.run 0 source).2.unfinished := by
  rw [scan] at scanned
  cases finished : (Mode.between.run 0 source).2.finish with
  | error error => simp [finished, Except.map] at scanned
  | ok last =>
      rw [Mode.unfinished_of_finish finished]
      simpa [finished, Except.map] using scanned.symm

theorem pairwise_beginningAt (source : Bytes) :
    (source.zipIdx.map beginningAt).Pairwise fun first second => first.2 < second.2 := by
  have ascending : (source.zipIdx.map Prod.snd).Pairwise (· < ·) := by
    rw [List.zipIdx_map_snd]
    exact List.pairwise_lt_range' 1
  rw [List.pairwise_map] at ascending ⊢
  exact ascending.imp Int.ofNat_lt.mpr

/-- The tokens of a text are made of exactly the bytes that are neither white
space outside strings nor in comments. Each begins at the byte of the text that
its offset names, farther on than the one before it. -/
theorem scan_accounts_for_source {source : Bytes} {tokens : List Token}
    (scanned : scan source = .ok tokens) :
    tokens.flatMap text = significant source ∧
      tokens.Pairwise (fun first second => first.pos < second.pos) ∧
      ∀ token ∈ tokens, ∃ offset : Nat, token.pos = offset ∧ offset < source.length ∧
        token.text.head? = source[offset]? := by
  have started : Mode.between.IsStarted 0 := trivial
  have kept := Mode.texts_run started source
  have begun := Mode.beginnings_run started source
  rw [← scan_eq_ok scanned] at kept begun
  refine ⟨kept, ?_, ?_⟩
  · have ascending := (pairwise_beginningAt source).sublist begun
    rwa [List.pairwise_map] at ascending
  · intro token mem
    have placed := begun.subset (List.mem_map_of_mem mem)
    obtain ⟨⟨byte, offset⟩, found, same⟩ := List.mem_map.mp placed
    obtain ⟨first, place⟩ := Prod.mk.inj same
    have inside : source[offset]? = some byte := List.mk_mem_zipIdx_iff_getElem?.mp found
    refine ⟨offset, place.symm, ?_, ?_⟩
    · exact (List.getElem?_eq_some_iff.mp inside).1
    · rw [inside]
      exact first.symm

theorem scan_accounts_for_interrupted :
    let source := utf8 "a#x\\##b \"# \\\" \" 1.# #.2"
    let tokens : List Token :=
      [⟨.word, utf8 "ab", 0⟩, ⟨.string (utf8 "# \" "), utf8 "\"# \\\" \"", 8⟩,
        ⟨.number ⟨1, 1⟩, utf8 "1", 16⟩, ⟨.operator, utf8 "..", 17⟩,
        ⟨.number ⟨2, 1⟩, utf8 "2", 22⟩]
    scan source = .ok tokens ∧ tokens.flatMap text = utf8 "ab\"# \\\" \"1..2" ∧
      significant source = utf8 "ab\"# \\\" \"1..2" ∧
      tokens.Pairwise fun first second => first.pos < second.pos := by
  intro source tokens
  have scanned : scan source = .ok tokens := by rfl
  have accounts := scan_accounts_for_source scanned
  exact ⟨scanned, rfl, accounts.1.symm, accounts.2.1⟩

end Juxta.Token
