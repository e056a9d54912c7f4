/-
# The descent always advances

The routines of the descent end on all tokens, and they find what the reader finds.
An expression may take no token at all, so it is not the expressions that let a list
or a dictionary end: it is the one terminator that is left behind after each of them.
Every call starts further on than the call it is made from, or it starts at the same
place and is of a lower rank, where a function literal comes before an expression and
an expression before the inside of a bracket.
-/

import Juxta.Proofs.Tree.Bracketed
import Juxta.Proofs.Tree.Built
import Juxta.Proofs.Tree.Descent

namespace Juxta.Tree

/-! ### The reader at a leaf and behind a whole expression -/

theorem read_cons_of_leaf? {frames : List Frame} {branches : List Tree} {token : Token}
    {tree : Tree} (goes : ¬ token.isTerminator) (leaf : token.leaf? = some tree)
    (rest : List Token) :
    read frames branches (token :: rest) = read frames (tree :: branches) rest := by
  rw [read_eq_run, Reading.run, Reading.next, if_neg goes, Reading.atBranch, read_eq_run]
  rw [Token.leaf?] at leaf
  split at leaf <;> cases leaf
  all_goals
    next kind => rw [kind]

/-- What the reader answers after a terminator that did something to the bracket
around it. -/
def Closing.answer (before : List Tree) (frames : List Frame) (rest : List Token) :
    Closing → Descent.Answer
  | complete branch => read frames (branch :: before) rest
  | goOn opening => read (.bracket opening before :: frames) [] rest
  | reject error => .error error

/-- What the reader answers where an expression has settled before some tokens. -/
def answerSettled (rest : List Token) :
    Except ParseError (Tree × Option Enclosing) → Descent.Answer
  | .error error => .error error
  | .ok (tree, none) => .ok (tree, rest)
  | .ok (tree, some ⟨opening, before, frames⟩) =>
      match rest with
      | [] => .error (ParseError.ended opening.missing)
      | token :: rest => (opening.close tree token).answer before frames rest

/-- What the reader answers where a whole expression stands before some tokens. Outside
all frames, that is its tree and the tokens. -/
def answerWhole (frames : List Frame) (tree : Tree) (rest : List Token) : Descent.Answer :=
  answerSettled rest (complete rest.isEmpty tree frames)

/-- Where the tokens are at their end or at a terminator, all depends on how the
expression settles. -/
theorem read_eq_answerSettled {rest : List Token}
    (stops : ∀ token ∈ rest.head?, token.isTerminator) (frames : List Frame)
    (branches : List Tree) :
    read frames branches rest = answerSettled rest (settle rest.isEmpty frames branches) := by
  cases rest with
  | nil =>
      rw [read, List.isEmpty_nil]
      rcases settle true frames branches with error | ⟨tree, _ | enclosing⟩ <;> rfl
  | cons token rest =>
      have terminates : token.isTerminator := stops token rfl
      rw [read.eq_def, List.isEmpty_cons]
      dsimp only
      rw [if_pos terminates]
      rcases settle false frames branches with error | ⟨tree, _ | ⟨opening, before, frames⟩⟩
      · rfl
      · rfl
      · dsimp only [answerSettled]
        cases opening.close tree token <;> rfl

namespace Descent

/-! ### Where calls start and stop -/

/-- A place among the tokens where an expression may stop: their end, or a terminator. -/
def StopsAt (tokens : List Token) (place : Nat) : Prop :=
  place = tokens.length ∨ ∃ token, tokens[place]? = some token ∧ token.isTerminator

namespace Call

/-- Where a call may start. A function literal starts with a token that is there. -/
def MayStart (tokens : List Token) (start : Nat) : Call → Prop
  | function => start < tokens.length
  | _ => start ≤ tokens.length

/-- Where a call may stop. An expression stops before a terminator, and any other call
has moved the cursor. -/
def MayStop (tokens : List Token) (start stop : Nat) : Call → Prop
  | expression _ => StopsAt tokens stop
  | _ => start < stop

/-- What the reader answers where a call starts, inside some frames and behind some
branches. -/
def answerFrom (frames : List Frame) (before : List Tree) (rest : List Token) : Call → Answer
  | expression branches => read frames branches rest
  | group opened => read (.bracket (.group opened) before :: frames) [] rest
  | function =>
      match rest with
      | [] => .error (.ended .parameter)
      | backslash :: rest => (Reading.afterBackslash backslash.pos frames before).run rest
  | list elements => read (.bracket (.items elements) before :: frames) [] rest
  | dictionary entries => read (.bracket (.atKey entries) before :: frames) [] rest

/-- What the reader answers where a call has stopped with a tree. -/
def answerBehind (frames : List Frame) (before : List Tree) (tree : Tree) (rest : List Token) :
    Call → Answer
  | expression _ => answerWhole frames tree rest
  | _ => read frames (tree :: before) rest

/-- Calls of a lower rank are made without moving the cursor. -/
def rank : Call → Nat
  | function => 0
  | expression _ => 1
  | _ => 2

/-- What decreases from a call to the calls it makes: first the tokens that are left, then
the rank. -/
def weight (tokens : List Token) (track : Track) (call : Call) : Nat :=
  3 * (tokens.length - track.cursor) + call.rank

theorem rank_le (call : Call) : call.rank ≤ 2 := by
  cases call <;> simp [rank]

variable {tokens : List Token} {track later : Track}

theorem MayStart.le {start : Nat} {call : Call} (startable : call.MayStart tokens start) :
    start ≤ tokens.length := by
  cases call with
  | function => exact Nat.le_of_lt startable
  | _ => exact startable

/-- All calls further on have a lower weight. -/
theorem weight_lt_of_further {call call' : Call} (further : track.cursor < later.cursor)
    (inside : later.cursor ≤ tokens.length) :
    call'.weight tokens later < call.weight tokens track := by
  have low := call'.rank_le
  rw [weight, weight]
  omega

end Call

/-- A whole expression was read inside some frames: it may stop at the cursor, and the
reader makes its answer from the tree. -/
def Whole (tokens : List Token) (answer : Answer) (frames : List Frame) (tree : Tree)
    (later : Track) : Prop :=
  StopsAt tokens later.cursor ∧ answerWhole frames tree (later.ahead tokens) = answer

/-- A branch was read behind others, and the cursor has moved: the reader goes on with
the branch. -/
def Joined (tokens : List Token) (answer : Answer) (frames : List Frame) (before : List Tree)
    (track : Track) (branch : Tree) (later : Track) : Prop :=
  track.cursor < later.cursor ∧ read frames (branch :: before) (later.ahead tokens) = answer

/-- A call ends, and it finds what the reader finds from the same place on. -/
def Mirrors (tokens : List Token) (perform : Call → Walk Tree) (call : Call) (track : Track) :
    Prop :=
  ∀ ⦃answer : Answer⦄ (frames : List Frame) (before : List Tree),
    call.answerFrom frames before (track.ahead tokens) = answer →
    Ends tokens answer track (perform call) fun tree later =>
      call.MayStop tokens track.cursor later.cursor ∧
        call.answerBehind frames before tree (later.ahead tokens) = answer

/-- All calls of a lower weight than one call mirror the reader. -/
def MirrorsBelow (tokens : List Token) (perform : Call → Walk Tree) (call : Call)
    (track : Track) : Prop :=
  ∀ other later, other.MayStart tokens later.cursor →
    other.weight tokens later < call.weight tokens track → Mirrors tokens perform other later

variable {tokens : List Token} {answer : Answer} {track middle later : Track}
  {frames : List Frame} {branches before : List Tree} {perform : Call → Walk Tree} {call : Call}

theorem MirrorsBelow.further (below : MirrorsBelow tokens perform call track)
    (moved : track.cursor < later.cursor) (other : Call)
    (startable : other.MayStart tokens later.cursor) : Mirrors tokens perform other later :=
  below other later startable (Call.weight_lt_of_further moved startable.le)

theorem MirrorsBelow.advance (below : MirrorsBelow tokens perform call track)
    (reaches : Reaches tokens track middle) (other : Call)
    (startable : other.MayStart tokens middle.advance.cursor) :
    Mirrors tokens perform other middle.advance :=
  below.further (Nat.lt_succ_of_le reaches.cursor_le) other startable

/-! ### Expressions -/

theorem StopsAt.head (stops : StopsAt tokens later.cursor) :
    ∀ token ∈ (later.ahead tokens).head?, token.isTerminator := by
  rw [Track.ahead, List.head?_drop]
  rcases stops with ended | ⟨token, found, terminates⟩
  · simp [ended]
  · simpa [found] using terminates

theorem ends_conclude (stops : StopsAt tokens track.cursor)
    (answered : read frames branches (track.ahead tokens) = answer) :
    Ends tokens answer track (conclude tokens branches) (Whole tokens answer frames) := by
  rw [read_eq_answerSettled stops.head] at answered
  apply ends_atEnd
  cases resolved : resolve (track.ahead tokens).isEmpty branches.reverse with
  | error error =>
      rw [settle.eq_def, resolved] at answered
      exact ends_fail answered.symm
  | ok tree =>
      rw [settle_eq_complete resolved] at answered
      exact ends_pure ⟨stops, answered⟩

section Expression

variable (inside : track.cursor ≤ tokens.length)
  (below : MirrorsBelow tokens perform (.expression branches) track)

include inside below

/-- The loop of an expression goes on where the cursor has moved. -/
theorem ends_goOn (reaches : Reaches tokens track later) (moved : track.cursor < later.cursor)
    {others : List Tree} (answered : read frames others (later.ahead tokens) = answer) :
    Ends tokens answer later (perform (.expression others)) (Whole tokens answer frames) :=
  below.further moved (.expression others) (reaches.cursor_le_length inside) frames [] answered

/-- The loop of an expression goes on with a branch that a call has found. -/
theorem ends_join (reaches : Reaches tokens track middle)
    (ends : Ends tokens answer middle (perform call)
      (Joined tokens answer frames branches middle)) :
    Ends tokens answer middle (do perform (.expression ((← perform call) :: branches)))
      (Whole tokens answer frames) := by
  apply ends.bind
  rintro branch later reaches' ⟨moved, answered⟩
  have moved := Nat.lt_of_le_of_lt reaches.cursor_le moved
  exact ends_goOn inside below (reaches.trans reaches') moved answered

theorem ends_bracket {token : Token} (found : tokens[track.cursor]? = some token)
    (answered : (match Opening.ofBracket? token with
      | some opening => read (.bracket opening branches :: frames) [] (track.advance.ahead tokens)
      | none => read frames branches (track.advance.ahead tokens)) = answer) :
    Ends tokens answer track.advance (bracket perform token branches)
      (Whole tokens answer frames) := by
  have reaches : Reaches tokens track track.advance := Reaches.advance (.refl track) found
  have within : track.advance.cursor ≤ tokens.length := lt_length_of_found found
  have opened (call : Call) := below.advance (.refl track) call
  rw [Opening.ofBracket?] at answered
  unfold bracket
  split
  next isParen =>
    rw [if_pos isParen] at answered
    exact ends_join inside below reaches
      (opened (.group token.pos) within frames branches answered)
  next notParen =>
    rw [if_neg notParen] at answered
    split
    next isBracket =>
      rw [if_pos isBracket] at answered
      exact ends_join inside below reaches (opened (.list []) within frames branches answered)
    next notBracket =>
      rw [if_neg notBracket] at answered
      split
      next isBrace =>
        rw [if_pos isBrace] at answered
        exact ends_join inside below reaches
          (opened (.dictionary []) within frames branches answered)
      next notBrace =>
        rw [if_neg notBrace] at answered
        exact ends_goOn inside below reaches (Nat.lt_succ_self _) answered

theorem mirrors_expression :
    Mirrors tokens (routine tokens perform) (.expression branches) track := by
  intro answer frames _ answered
  rw [Call.answerFrom] at answered
  apply ends_look
  · intro ended
    have stops := Nat.le_antisymm inside (ahead_eq_nil_iff.mp ended)
    exact ends_conclude (.inl stops) answered
  intro token found
  split
  next terminates => exact ends_conclude (.inr ⟨token, found, terminates⟩) answered
  next goes =>
    rw [ahead_eq_cons found] at answered
    have leaf {tree : Tree} (leaf : token.leaf? = some tree) :
        Ends tokens answer track (do advance; perform (.expression (tree :: branches)))
          (Whole tokens answer frames) := by
      rw [read_cons_of_leaf? goes leaf] at answered
      exact ends_advance found (ends_goOn inside below (Reaches.advance (.refl track) found)
        (Nat.lt_succ_self _) answered)
    split
    next kind =>
      rw [read.eq_def] at answered
      simp only [goes, kind] at answered
      exact ends_advance found (ends_bracket inside below found answered)
    next kind =>
      -- A function literal starts at the same place as the expression.
      rw [read_eq_run, Reading.run, Reading.next, if_neg goes, Reading.atBranch, kind] at answered
      have start : Mirrors tokens perform .function track :=
        below .function track (lt_length_of_found found) (Nat.lt_succ_self _)
      refine ends_join inside below (.refl track) (start frames branches ?_)
      rwa [ahead_eq_cons found]
    next kind => exact leaf (by rw [Token.leaf?, kind])
    next kind => exact leaf (by rw [Token.leaf?, kind])
    next kind => exact leaf (by rw [Token.leaf?, kind])
    next kind => exact leaf (by rw [Token.leaf?, kind])
    next kind => exact leaf (by rw [Token.leaf?, kind])
    next kind =>
      rw [read.eq_def] at answered
      simp only [goes, kind] at answered
      exact ends_fail answered.symm

end Expression

/-! ### Function literals and brackets -/

/-- The body of a function literal ends together with the expression around it. -/
theorem Whole.body {parameter : Bytes} {tree : Tree}
    (whole : Whole tokens answer (.body parameter before :: frames) tree later) :
    read frames (functionOf parameter tree :: before) (later.ahead tokens) = answer := by
  rw [read_eq_answerSettled whole.1.head]
  exact whole.2

theorem mirrors_function (inside : track.cursor < tokens.length)
    (below : MirrorsBelow tokens perform .function track) :
    Mirrors tokens (routine tokens perform) .function track := by
  intro answer frames before answered
  have found := List.getElem?_eq_getElem inside
  rw [ahead_eq_cons found, Call.answerFrom] at answered
  have moves : Reaches tokens track track.advance := Reaches.advance (.refl track) found
  apply ends_current found
  apply ends_advance found
  apply ends_look
  · intro ended
    rw [ended] at answered
    exact ends_fail answered.symm
  intro parameter found'
  rw [ahead_eq_cons found', Reading.run, Reading.next] at answered
  split
  next terminates =>
    rw [if_pos terminates] at answered
    exact ends_fail answered.symm
  next goes =>
    rw [if_neg goes] at answered
    apply ends_advance found'
    have body := below.advance moves (.expression []) (lt_length_of_found found')
    apply (body (.body (parameterName parameter) before :: frames) []
      ((read_eq_run ..).trans answered)).bind
    intro tree later reaches whole
    have moved : track.cursor < later.cursor :=
      Nat.lt_of_lt_of_le (Nat.lt_add_of_pos_right Nat.two_pos) reaches.cursor_le
    exact ends_pure ⟨moved, Whole.body whole⟩

/-- What opened a bracket decides on the terminator behind an expression, which has to be
there. -/
theorem Whole.ends_look {opening : Opening} {tree : Tree}
    (whole : Whole tokens answer (.bracket opening before :: frames) tree later)
    {next : Token → Walk Tree} {done : Tree → Track → Prop}
    (found : ∀ token, tokens[later.cursor]? = some token →
      (opening.close tree token).answer before frames (later.advance.ahead tokens) = answer →
      Ends tokens answer later (next token) done) :
    Ends tokens answer later
      (do if ← atEnd tokens then fail (.ended opening.missing) else next (← current tokens))
      done := by
  have answered := whole.2
  apply Descent.ends_look
  · intro ended
    rw [ended] at answered
    exact ends_fail answered.symm
  · intro token found'
    rw [ahead_eq_cons found'] at answered
    exact found token found' answered

/-- A call that ends with the token at the cursor has moved the cursor. -/
theorem ends_closing {branch : Tree} {token : Token} (reaches : Reaches tokens track middle)
    (found : tokens[middle.cursor]? = some token)
    (answered : read frames (branch :: before) (middle.advance.ahead tokens) = answer) :
    Ends tokens answer middle (do advance; return branch)
      (Joined tokens answer frames before track) :=
  ends_advance found (ends_pure ⟨Nat.lt_succ_of_le reaches.cursor_le, answered⟩)

/-- A call that goes on as another one behind the token at the cursor has moved the
cursor. -/
theorem ends_separating {token : Token} (reaches : Reaches tokens track middle)
    (found : tokens[middle.cursor]? = some token)
    (ends : Ends tokens answer middle.advance (perform call)
      (Joined tokens answer frames before middle.advance)) :
    Ends tokens answer middle (do advance; perform call)
      (Joined tokens answer frames before track) := by
  apply ends_advance found
  apply ends.imp
  rintro branch later - ⟨moved, answered⟩
  exact ⟨Nat.lt_of_le_of_lt (Nat.le_succ_of_le reaches.cursor_le) moved, answered⟩

theorem mirrors_group (inside : track.cursor ≤ tokens.length) {opened : Int}
    (below : MirrorsBelow tokens perform (.group opened) track) :
    Mirrors tokens (routine tokens perform) (.group opened) track := by
  intro answer frames before answered
  have inner := below (.expression []) track inside (Nat.lt_succ_self _)
  apply (inner (.bracket (.group opened) before :: frames) [] answered).bind
  intro tree later reaches whole
  apply Whole.ends_look whole
  intro token found closed
  rw [Opening.close, closeGroup] at closed
  split
  next closes =>
    rw [if_pos closes] at closed
    exact ends_closing reaches found closed
  next other =>
    rw [if_neg other] at closed
    exact ends_fail closed.symm

theorem mirrors_list (inside : track.cursor ≤ tokens.length) {elements : List Tree}
    (below : MirrorsBelow tokens perform (.list elements) track) :
    Mirrors tokens (routine tokens perform) (.list elements) track := by
  intro answer frames before answered
  rw [Call.answerFrom] at answered
  apply ends_unless_atEnd
  · intro ended
    rw [ended] at answered
    exact ends_fail answered.symm
  intro _
  have inner := below (.expression []) track inside (Nat.lt_succ_self _)
  apply (inner (.bracket (.items elements) before :: frames) [] answered).bind
  intro element later reaches whole
  apply Whole.ends_look whole
  intro token found closed
  rw [Opening.close, closeList] at closed
  split
  next closes =>
    rw [if_pos closes] at closed
    exact ends_closing reaches found closed
  next separates =>
    rw [if_neg separates] at closed
    have rest := below.advance reaches (.list (element :: elements)) (lt_length_of_found found)
    exact ends_separating reaches found (rest frames before closed)

theorem mirrors_dictionary (inside : track.cursor ≤ tokens.length)
    {entries : List (Tree × Tree)}
    (below : MirrorsBelow tokens perform (.dictionary entries) track) :
    Mirrors tokens (routine tokens perform) (.dictionary entries) track := by
  intro answer frames before answered
  rw [Call.answerFrom] at answered
  apply ends_unless_atEnd
  · intro ended
    rw [ended] at answered
    exact ends_fail answered.symm
  intro _
  -- A terminator after a key or after a value may be followed by further entries.
  have rest {middle : Track} {token : Token} {entries : List (Tree × Tree)}
      (reaches : Reaches tokens track middle) (found : tokens[middle.cursor]? = some token)
      (answered : read (.bracket (.atKey entries) before :: frames) []
        (middle.advance.ahead tokens) = answer) :
      Ends tokens answer middle (do advance; perform (.dictionary entries))
        (Joined tokens answer frames before track) :=
    ends_separating reaches found (below.advance reaches (.dictionary entries)
      (lt_length_of_found found) frames before answered)
  have inner := below (.expression []) track inside (Nat.lt_succ_self _)
  apply (inner (.bracket (.atKey entries) before :: frames) [] answered).bind
  intro key later reaches whole
  apply Whole.ends_look whole
  intro token found closed
  rw [Opening.close, closeKey] at closed
  split
  next closes =>
    rw [if_pos closes] at closed
    exact ends_closing reaches found closed
  next notClosing =>
    rw [if_neg notClosing] at closed
    split
    next isComma =>
      rw [if_pos isComma] at closed
      exact rest reaches found closed
    next notComma =>
      rw [if_neg notComma] at closed
      split
      next isColon =>
        rw [if_pos isColon] at closed
        apply ends_advance found
        have inner := below.advance reaches (.expression []) (lt_length_of_found found)
        apply (inner (.bracket (.atValue entries key.child) before :: frames) [] closed).bind
        intro value later' reaches' whole
        have reaches := (reaches.advance found).trans reaches'
        apply Whole.ends_look whole
        intro last found closed
        rw [Opening.close, closeValue] at closed
        split
        next closes =>
          rw [if_pos closes] at closed
          exact ends_closing reaches found closed
        next separates =>
          rw [if_neg separates] at closed
          exact rest reaches found closed
      next notColon =>
        rw [if_neg notColon] at closed
        exact ends_fail closed.symm

/-! ### All calls -/

theorem mirrors_routine (startable : call.MayStart tokens track.cursor)
    (below : MirrorsBelow tokens perform call track) :
    Mirrors tokens (routine tokens perform) call track := by
  cases call with
  | expression branches => exact mirrors_expression startable below
  | group opened => exact mirrors_group startable below
  | function => exact mirrors_function startable below
  | list elements => exact mirrors_list startable below
  | dictionary entries => exact mirrors_dictionary startable below

/-- A call is finished when calls may be nested as deeply as it weighs. -/
theorem mirrors_perform {depth : Nat} (startable : call.MayStart tokens track.cursor)
    (light : call.weight tokens track < depth) :
    Mirrors tokens (Descent.perform tokens depth) call track := by
  induction depth generalizing call track with
  | zero => exact absurd light (Nat.not_lt_zero _)
  | succ depth ih =>
      apply mirrors_routine startable
      intro other later startable' lighter
      exact ih startable' (Nat.lt_of_lt_of_le lighter (Nat.le_of_lt_succ light))

/-- Every call of the descent ends, on all tokens and wherever it may start, with calls
nested at most three deep for each token that is left and for the end, and it never asks
for a token behind the last one. The cursor only moves on, and not beyond the end. With
a tree, an expression stops at the end or at a terminator, which is left where it is, and
any other call has moved the cursor. What a call finds is what the reader finds: a tree
with the same tokens behind it, or the same error. -/
theorem call_ends {tokens : List Token} {start : Nat} (call : Call)
    (startable : call.MayStart tokens start) :
    ∃ result track,
      (∀ depth, 3 * (tokens.length - start) + 3 ≤ depth →
        (Descent.perform tokens depth call).run.run (.begin start) = (result, track)) ∧
      track.places.Pairwise (· > ·) ∧
      (∀ place ∈ track.places, start ≤ place ∧ place ≤ tokens.length) ∧
      ((∃ tree, result = .ok tree ∧ call.MayStop tokens start track.cursor ∧
          ∀ frames before, call.answerFrom frames before (tokens.drop start) =
            call.answerBehind frames before tree (tokens.drop track.cursor)) ∨
        ∃ error, result = .error (.failed error) ∧
          ∀ frames before, call.answerFrom frames before (tokens.drop start) = .error error) := by
  have light : call.weight tokens (.begin start) < 3 * (tokens.length - start) + 3 :=
    Nat.add_lt_add_left (Nat.lt_succ_of_le call.rank_le) _
  have mirrors (frames : List Frame) (before : List Tree) :=
    mirrors_perform startable light frames before rfl
  cases mirrors [] [] with
  | @done tree track run reaches holds =>
      obtain ⟨climbs, bounded⟩ := reaches.places startable.le
      refine ⟨.ok tree, track, ?_, climbs, bounded, .inl ⟨tree, rfl, holds.1, ?_⟩⟩
      · exact fun depth enough => run_perform_of_le enough run (by simp)
      · exact fun frames before => ((mirrors frames before).holds run).2.symm
  | @failed error track run reaches _ =>
      obtain ⟨climbs, bounded⟩ := reaches.places startable.le
      refine ⟨.error (.failed error), track, ?_, climbs, bounded, .inr ⟨error, rfl, ?_⟩⟩
      · exact fun depth enough => run_perform_of_le enough run (by simp)
      · exact fun frames before => (mirrors frames before).answered run

/-- Tokens written by hand: a list whose elements are separated by a parenthesis and a
colon, with a bracket that opens nothing and a function literal that has another mark
for its backslash and null for its parameter. -/
def oddTokens : List Token :=
  [⟨.bracket, [Ascii.closeParen], 4⟩, ⟨.bracket, [Ascii.openBracket], 4⟩,
    ⟨.bracket, utf8 "|", -3⟩, ⟨.word, utf8 "a", 7⟩, ⟨.bracket, [Ascii.closeParen], 0⟩,
    ⟨.special, [Ascii.colon], 0⟩, ⟨.special, utf8 "?", 7⟩, ⟨.null, [], 7⟩,
    ⟨.bracket, [Ascii.closeBracket], 0⟩, ⟨.special, [Ascii.comma], 2⟩,
    ⟨.foreign (utf8 "MISSING"), [], 0⟩]

theorem call_ends_oddTokens :
    let elements := [wrap (word (utf8 "a")), empty, wrap (Tree.function none empty)]
    (Call.expression []).MayStart oddTokens 1 ∧
      ∃ track, (∀ depth, 33 ≤ depth →
          (Descent.perform oddTokens depth (.expression [])).run.run (.begin 1) =
            (.ok (wrap (Tree.list elements)), track)) ∧
        track.cursor = 9 ∧ StopsAt oddTokens 9 := by
  intro elements
  have startable : (Call.expression []).MayStart oddTokens 1 := Nat.le_of_ble_eq_true rfl
  have answered : readExpression (oddTokens.drop 1) =
      .ok (wrap (Tree.list elements), oddTokens.drop 9) := rfl
  obtain ⟨result, track, run, -, bounded, found⟩ := call_ends (.expression []) startable
  rcases found with ⟨tree, rfl, stops, agrees⟩ | ⟨error, rfl, agrees⟩
  · obtain ⟨rfl, left⟩ := Prod.mk.inj (Except.ok.inj (answered.symm.trans (agrees [] [])))
    have cursor : track.cursor = 9 := by
      have left_length := congrArg List.length left
      have inside := (bounded _ List.mem_cons_self).2
      have length : oddTokens.length = 11 := rfl
      rw [List.length_drop, List.length_drop] at left_length
      omega
    rw [cursor] at stops
    exact ⟨startable, track, run, cursor, stops⟩
  · cases answered.symm.trans (agrees [] [])

end Descent

end Juxta.Tree
