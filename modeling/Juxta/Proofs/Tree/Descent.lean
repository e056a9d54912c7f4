/-
# Reading by recursive descent

The reader keeps on a stack what is still open. The same language can be read by
routines that call one another, one for each of expressions, parentheses, function
literals, lists and dictionaries, with a cursor that all of them move. Their form
alone does not make such routines safe: calls may be nested without end, and a routine
may ask for the token at the cursor where there is none. Walks have outcomes for both,
so that neither is excluded before it is proved.

The rules for walks that end carry the answer of the reader along. It is the same
from the first token to the last, and a walk that fails has to fail with it.
-/

import Juxta.Proofs.Tree.Reading
import Mathlib.Logic.Relation

namespace Juxta.Tree.Descent

/-- The place of a cursor among the tokens, and the places it had before, last one
first. -/
structure Track where
  cursor : Nat
  passed : List Nat

namespace Track

/-- A cursor that has not moved yet. -/
def begin (place : Nat) : Track := ⟨place, []⟩

/-- All places of the cursor, last one first. -/
def places (track : Track) : List Nat := track.cursor :: track.passed

/-- The cursor moves on by one place. -/
def advance (track : Track) : Track := ⟨track.cursor + 1, track.places⟩

/-- The tokens from the cursor on. -/
def ahead (track : Track) (tokens : List Token) : List Token := tokens.drop track.cursor

end Track

/-- Why a walk comes to no result. -/
inductive Halt
  /-- The tokens are not a program. -/
  | failed (error : ParseError)
  /-- A token was asked for where there is none. -/
  | pastEnd
  /-- Calls were nested too deeply. -/
  | unfinished

/-- A walk moves the cursor and comes to a result or halts. -/
abbrev Walk := ExceptT Halt (StateM Track)

/-- Whether the cursor stands behind the last token. -/
def atEnd (tokens : List Token) : Walk Bool := return tokens.length ≤ (← get).cursor

/-- The token at the cursor, which has to be there. -/
def current (tokens : List Token) : Walk Token := do
  match tokens[(← get).cursor]? with
  | some token => return token
  | none => throw .pastEnd

/-- Leaves the token at the cursor behind. -/
def advance : Walk Unit := modify Track.advance

/-- Gives up with an error. -/
def fail {α : Type} (error : ParseError) : Walk α := throw (.failed error)

/-- The expression of all its branches, which are given last one first. -/
def conclude (tokens : List Token) (branches : List Tree) : Walk Tree := do
  match resolve (← atEnd tokens) branches.reverse with
  | .ok tree => return tree
  | .error error => fail error

/-- A call of a routine. Each turn of a loop is a call of its own, with what was
collected so far, last one first. -/
inductive Call
  /-- Reads an expression up to a terminator, which is left where it is. -/
  | expression (branches : List Tree)
  /-- Reads on behind a parenthesis that was opened at an offset. -/
  | group (opened : Int)
  /-- Reads a function literal from its backslash on. -/
  | function
  /-- Reads on in a list. -/
  | list (elements : List Tree)
  /-- Reads on in a dictionary, before a key. -/
  | dictionary (entries : List (Tree × Tree))

section Routines

variable (tokens : List Token) (perform : Call → Walk Tree)

/-- Goes on in an expression behind a bracket. One that opens nothing is skipped. -/
def bracket (token : Token) (branches : List Tree) : Walk Tree := do
  if token.text == [Ascii.openParen] then
    perform (.expression ((← perform (.group token.pos)) :: branches))
  else if token.text == [Ascii.openBracket] then
    perform (.expression ((← perform (.list [])) :: branches))
  else if token.text == [Ascii.openBrace] then
    perform (.expression ((← perform (.dictionary [])) :: branches))
  else perform (.expression branches)

/-- The routine of an expression. -/
def expression (branches : List Tree) : Walk Tree := do
  if ← atEnd tokens then conclude tokens branches
  else
    let token ← current tokens
    if token.isTerminator then conclude tokens branches
    else
      match token.kind with
      | .bracket =>
          advance
          bracket perform token branches
      | .special => perform (.expression ((← perform .function) :: branches))
      | .word =>
          advance
          perform (.expression (word token.text :: branches))
      | .operator =>
          advance
          perform (.expression (operator token.text token.pos :: branches))
      | .number value =>
          advance
          perform (.expression (number value :: branches))
      | .string value =>
          advance
          perform (.expression (string token.text value :: branches))
      | .null =>
          advance
          perform (.expression (null :: branches))
      | .foreign name => fail ⟨token.pos, .unknownKind name⟩

/-- The routine of a parenthesis. -/
def group (opened : Int) : Walk Tree := do
  let inner ← perform (.expression [])
  if ← atEnd tokens then fail (.ended .closeParen)
  else
    let token ← current tokens
    if token.isMark Ascii.closeParen then
      advance
      return inner
    else fail ⟨token.pos, .unclosedParen opened token.text⟩

/-- The routine of a function literal. -/
def function : Walk Tree := do
  let backslash ← current tokens
  advance
  if ← atEnd tokens then fail (.ended .parameter)
  else
    let parameter ← current tokens
    if parameter.isTerminator then fail ⟨backslash.pos, .malformedFunction parameter.text⟩
    else
      advance
      return functionOf (parameterName parameter) (← perform (.expression []))

/-- The routine of a list. -/
def list (elements : List Tree) : Walk Tree := do
  if ← atEnd tokens then fail (.ended .closeBracket)
  else
    let element ← perform (.expression [])
    if ← atEnd tokens then fail (.ended .closeBracket)
    else
      let token ← current tokens
      if token.isMark Ascii.closeBracket then
        advance
        return Tree.list (if element.isEmptyExpression then elements.reverse
          else (element :: elements).reverse)
      else
        -- Whichever terminator it is, it separates this element from the next.
        advance
        perform (.list (element :: elements))

/-- The routine of a dictionary. -/
def dictionary (entries : List (Tree × Tree)) : Walk Tree := do
  if ← atEnd tokens then fail (.ended .closeBrace)
  else
    let key ← perform (.expression [])
    if ← atEnd tokens then fail (.ended .closeBrace)
    else
      let token ← current tokens
      if token.isMark Ascii.closeBrace then
        advance
        return Tree.dictionary (if key.child.isNull then entries.reverse
          else ((key.child, key) :: entries).reverse)
      else if token.isMark Ascii.comma then
        advance
        perform (.dictionary ((key.child, key) :: entries))
      else if token.isMark Ascii.colon then
        advance
        let value ← perform (.expression [])
        if ← atEnd tokens then fail (.ended .closeBrace)
        else
          let last ← current tokens
          if last.isMark Ascii.closeBrace then
            advance
            return Tree.dictionary ((key.child, value) :: entries).reverse
          else
            advance
            perform (.dictionary ((key.child, value) :: entries))
      else fail ⟨token.pos, .expectedColon token.text⟩

/-- What a call does, given what the calls do that it makes. -/
def routine : Call → Walk Tree
  | .expression branches => expression tokens perform branches
  | .group opened => group tokens perform opened
  | .function => function tokens perform
  | .list elements => list tokens perform elements
  | .dictionary entries => dictionary tokens perform entries

end Routines

/-- Performs a call, with calls nested up to a given depth. -/
def perform (tokens : List Token) : (depth : Nat) → Call → Walk Tree
  | 0, _ => throw .unfinished
  | depth + 1, call => routine tokens (perform tokens depth) call

/-! ### Running walks -/

section Run

variable {α β : Type} {walk : Walk α} {next : α → Walk β} {track later : Track}

theorem run_bind_of_ok {value : α} (run : walk.run.run track = (.ok value, later)) :
    (walk >>= next).run.run track = (next value).run.run later := by
  rw [ExceptT.run_bind, StateT.run_bind, run]
  rfl

theorem run_bind_of_error {halt : Halt} (run : walk.run.run track = (.error halt, later)) :
    (walk >>= next).run.run track = (.error halt, later) := by
  rw [ExceptT.run_bind, StateT.run_bind, run]
  rfl

/-- Whatever a walk comes to before calls are nested too deeply, another one does too. -/
def Extends (longer shorter : Walk α) : Prop :=
  ∀ track, (shorter.run.run track).1 ≠ .error .unfinished →
    longer.run.run track = shorter.run.run track

theorem Extends.refl (walk : Walk α) : Extends walk walk := fun _ _ => rfl

theorem Extends.bind {longer shorter : Walk α} {next' : α → Walk β}
    (first : Extends longer shorter) (second : ∀ value, Extends (next' value) (next value)) :
    Extends (longer >>= next') (shorter >>= next) := by
  intro track finished
  rcases run : shorter.run.run track with ⟨halt | value, later⟩
  · rw [run_bind_of_error run] at finished ⊢
    have same : longer.run.run track = shorter.run.run track := by
      apply first
      rw [run]
      exact fun cut => finished (congrArg Except.error (Except.error.inj cut))
    exact run_bind_of_error (same.trans run)
  · rw [run_bind_of_ok run] at finished ⊢
    have same : longer.run.run track = shorter.run.run track := by
      apply first
      simp [run]
    rw [run_bind_of_ok (same.trans run)]
    exact second value later finished

theorem Extends.ite {condition : Prop} [Decidable condition]
    {longer shorter longer' shorter' : Walk α}
    (first : Extends longer shorter) (second : Extends longer' shorter') :
    Extends (if condition then longer else longer') (if condition then shorter else shorter') := by
  split
  · exact first
  · exact second

theorem extends_routine (tokens : List Token) {longer shorter : Call → Walk Tree}
    (calls : ∀ call, Extends (longer call) (shorter call)) (call : Call) :
    Extends (routine tokens longer call) (routine tokens shorter call) := by
  have joins (walk : Call) (branches : List Tree) :
      Extends (do longer (.expression ((← longer walk) :: branches)))
        (do shorter (.expression ((← shorter walk) :: branches))) :=
    (calls walk).bind fun _ => calls _
  have moves (walk : Call) : Extends (do advance; longer walk) (do advance; shorter walk) :=
    (Extends.refl _).bind fun _ => calls walk
  cases call with
  | expression branches =>
      refine (Extends.refl _).bind fun _ => .ite (.refl _) ?_
      refine (Extends.refl _).bind fun token => .ite (.refl _) ?_
      cases token.kind with
      | bracket =>
          refine (Extends.refl _).bind fun _ => .ite (joins _ _) (.ite (joins _ _) ?_)
          exact .ite (joins _ _) (calls _)
      | special => exact joins _ _
      | foreign name => exact .refl _
      | _ => exact moves _
  | group opened => exact (calls _).bind fun _ => .refl _
  | function =>
      refine (Extends.refl _).bind fun _ => (Extends.refl _).bind fun _ => ?_
      refine (Extends.refl _).bind fun _ => .ite (.refl _) ?_
      refine (Extends.refl _).bind fun _ => .ite (.refl _) ?_
      exact (Extends.refl _).bind fun _ => (calls _).bind fun _ => .refl _
  | list elements =>
      refine (Extends.refl _).bind fun _ => .ite (.refl _) ?_
      refine (calls _).bind fun _ => (Extends.refl _).bind fun _ => .ite (.refl _) ?_
      exact (Extends.refl _).bind fun _ => .ite (.refl _) (moves _)
  | dictionary entries =>
      refine (Extends.refl _).bind fun _ => .ite (.refl _) ?_
      refine (calls _).bind fun _ => (Extends.refl _).bind fun _ => .ite (.refl _) ?_
      refine (Extends.refl _).bind fun _ => .ite (.refl _) (.ite (moves _) (.ite ?_ (.refl _)))
      refine (Extends.refl _).bind fun _ => (calls _).bind fun _ => ?_
      refine (Extends.refl _).bind fun _ => .ite (.refl _) ?_
      exact (Extends.refl _).bind fun _ => .ite (.refl _) (moves _)

/-- A call that is finished at some depth does the same at any greater depth. -/
theorem extends_perform (tokens : List Token) {depth greater : Nat} (le : depth ≤ greater)
    (call : Call) : Extends (perform tokens greater call) (perform tokens depth call) := by
  induction depth generalizing greater call with
  | zero => exact fun _ finished => absurd rfl finished
  | succ depth ih =>
      obtain ⟨greater, rfl⟩ := Nat.exists_eq_add_one_of_ne_zero (Nat.ne_zero_of_lt le)
      exact extends_routine tokens (ih (Nat.le_of_succ_le_succ le)) call

theorem run_perform_of_le {tokens : List Token} {depth greater : Nat} (le : depth ≤ greater)
    {call : Call} {result : Except Halt Tree}
    (run : (perform tokens depth call).run.run track = (result, later))
    (finished : result ≠ .error .unfinished) :
    (perform tokens greater call).run.run track = (result, later) := by
  rw [← run]
  apply extends_perform tokens le call
  rwa [run]

end Run

/-! ### Places of the cursor -/

/-- The cursor moves on over a token. -/
def Moves (tokens : List Token) (track later : Track) : Prop :=
  track.cursor < tokens.length ∧ later = track.advance

/-- The cursor moves on over some tokens, one after the other. -/
def Reaches (tokens : List Token) : Track → Track → Prop :=
  Relation.ReflTransGen (Moves tokens)

section Places

variable {tokens : List Token} {track later : Track} {token : Token}

theorem lt_length_of_found (found : tokens[track.cursor]? = some token) :
    track.cursor < tokens.length :=
  (List.getElem?_eq_some_iff.mp found).1

theorem ahead_eq_cons (found : tokens[track.cursor]? = some token) :
    track.ahead tokens = token :: track.advance.ahead tokens := by
  obtain ⟨inside, rfl⟩ := List.getElem?_eq_some_iff.mp found
  exact List.drop_eq_getElem_cons inside

theorem ahead_eq_nil_iff : track.ahead tokens = [] ↔ tokens.length ≤ track.cursor :=
  List.drop_eq_nil_iff

theorem Reaches.refl (track : Track) : Reaches tokens track track := Relation.ReflTransGen.refl

theorem Reaches.trans {middle : Track} (first : Reaches tokens track middle)
    (second : Reaches tokens middle later) : Reaches tokens track later :=
  Relation.ReflTransGen.trans first second

theorem Reaches.advance (reaches : Reaches tokens track later)
    (found : tokens[later.cursor]? = some token) : Reaches tokens track later.advance :=
  Relation.ReflTransGen.tail reaches ⟨lt_length_of_found found, rfl⟩

theorem Reaches.cursor_le (reaches : Reaches tokens track later) :
    track.cursor ≤ later.cursor := by
  induction reaches with
  | refl => exact Nat.le_refl _
  | tail _ moves ih =>
      obtain ⟨-, rfl⟩ := moves
      exact Nat.le_succ_of_le ih

theorem Reaches.cursor_le_length (reaches : Reaches tokens track later)
    (inside : track.cursor ≤ tokens.length) : later.cursor ≤ tokens.length := by
  induction reaches with
  | refl => exact inside
  | tail _ moves _ =>
      obtain ⟨more, rfl⟩ := moves
      exact more

/-- The cursor never goes back, and it stays within the tokens. -/
theorem Reaches.places {start : Nat} (reaches : Reaches tokens (.begin start) later)
    (inside : start ≤ tokens.length) :
    later.places.Pairwise (· > ·) ∧
      ∀ place ∈ later.places, start ≤ place ∧ place ≤ tokens.length := by
  induction reaches with
  | refl => simpa [Track.begin, Track.places] using inside
  | @tail middle last before moves ih =>
      obtain ⟨more, rfl⟩ := moves
      obtain ⟨descends, bounded⟩ := ih
      -- The last place is above the one before it, which is above all others.
      have above : ∀ place ∈ middle.places, place ≤ middle.cursor := by
        intro place mem
        rcases List.mem_cons.mp mem with rfl | passed
        · exact Nat.le_refl _
        · exact Nat.le_of_lt (List.rel_of_pairwise_cons descends passed)
      have low : start ≤ middle.cursor := (bounded _ List.mem_cons_self).1
      constructor
      · exact List.Pairwise.cons (fun place mem => Nat.lt_succ_of_le (above place mem)) descends
      · intro place mem
        rcases List.mem_cons.mp mem with rfl | passed
        · exact ⟨Nat.le_succ_of_le low, more⟩
        · exact bounded place passed

end Places

/-! ### Walks that end -/

/-- What the reader answers: a tree with the tokens that are left, or an error. -/
abbrev Answer := Except ParseError (Tree × List Token)

/-- A walk ends. It comes to a result with a given property, or it fails with the
error that the reader answers. -/
inductive Ends {α : Type} (tokens : List Token) (answer : Answer) (track : Track)
    (walk : Walk α) (done : α → Track → Prop) : Prop
  | done {value : α} {later : Track} (run : walk.run.run track = (.ok value, later))
      (reaches : Reaches tokens track later) (holds : done value later)
  | failed {error : ParseError} {later : Track}
      (run : walk.run.run track = (.error (.failed error), later))
      (reaches : Reaches tokens track later) (answered : answer = .error error)

section Rules

variable {α β : Type} {tokens : List Token} {answer : Answer} {track : Track}
  {walk : Walk α} {next : α → Walk β} {middle middle' : α → Track → Prop}
  {done : β → Track → Prop}

theorem Ends.imp (ends : Ends tokens answer track walk middle)
    (weaker : ∀ value later, Reaches tokens track later → middle value later →
      middle' value later) :
    Ends tokens answer track walk middle' := by
  cases ends with
  | done run reaches holds => exact .done run reaches (weaker _ _ reaches holds)
  | failed run reaches answered => exact .failed run reaches answered

theorem Ends.holds (ends : Ends tokens answer track walk middle) {value : α} {later : Track}
    (run : walk.run.run track = (.ok value, later)) : middle value later := by
  cases ends with
  | done run' _ holds =>
      cases run.symm.trans run'
      exact holds
  | failed run' _ _ => cases run.symm.trans run'

theorem Ends.answered (ends : Ends tokens answer track walk middle) {error : ParseError}
    {later : Track} (run : walk.run.run track = (.error (.failed error), later)) :
    answer = .error error := by
  cases ends with
  | done run' _ _ => cases run.symm.trans run'
  | failed run' _ answered =>
      cases run.symm.trans run'
      exact answered

theorem Ends.bind (first : Ends tokens answer track walk middle)
    (second : ∀ value later, Reaches tokens track later → middle value later →
      Ends tokens answer later (next value) done) :
    Ends tokens answer track (walk >>= next) done := by
  cases first with
  | failed run reaches answered => exact .failed (run_bind_of_error run) reaches answered
  | @done value later run reaches holds =>
      cases second value later reaches holds with
      | failed rest reaches' answered =>
          exact .failed ((run_bind_of_ok run).trans rest) (reaches.trans reaches') answered
      | done rest reaches' holds =>
          exact .done ((run_bind_of_ok run).trans rest) (reaches.trans reaches') holds

theorem ends_pure {value : α} (holds : middle value track) :
    Ends tokens answer track (pure value) middle :=
  .done rfl (.refl track) holds

theorem ends_fail {error : ParseError} (answered : answer = .error error) :
    Ends tokens answer track (fail error) middle :=
  .failed rfl (.refl track) answered

/-- The cursor is moved only over a token. -/
theorem ends_advance {rest : Walk α} {token : Token} (found : tokens[track.cursor]? = some token)
    (ends : Ends tokens answer track.advance rest middle) :
    Ends tokens answer track (do advance; rest) middle := by
  have moved : Ends tokens answer track advance (fun _ later => later = track.advance) :=
    .done rfl (Reaches.advance (.refl track) found) rfl
  apply moved.bind
  rintro _ _ - rfl
  exact ends

/-- A token may be asked for where there is one. -/
theorem ends_current {next : Token → Walk α} {token : Token}
    (found : tokens[track.cursor]? = some token)
    (ends : Ends tokens answer track (next token) middle) :
    Ends tokens answer track (do next (← current tokens)) middle := by
  have run : (current tokens).run.run track = (.ok token, track) := by
    change (match tokens[track.cursor]? with
      | some token => pure token
      | none => throw Halt.pastEnd : Walk Token).run.run track = _
    rw [found]
    rfl
  have looked : Ends tokens answer track (current tokens)
      (fun value later => value = token ∧ later = track) :=
    .done run (.refl track) ⟨rfl, rfl⟩
  apply looked.bind
  rintro _ _ - ⟨rfl, rfl⟩
  exact ends

theorem ends_atEnd {next : Bool → Walk α}
    (ends : Ends tokens answer track (next (track.ahead tokens).isEmpty) middle) :
    Ends tokens answer track (do next (← atEnd tokens)) middle := by
  have isEmpty_eq : decide (tokens.length ≤ track.cursor) = (track.ahead tokens).isEmpty := by
    rw [Bool.eq_iff_iff, decide_eq_true_iff, List.isEmpty_iff, ahead_eq_nil_iff]
  have asked : Ends tokens answer track (atEnd tokens)
      (fun value later => value = (track.ahead tokens).isEmpty ∧ later = track) :=
    .done rfl (.refl track) ⟨isEmpty_eq, rfl⟩
  apply asked.bind
  rintro _ _ - ⟨rfl, rfl⟩
  exact ends

theorem ends_unless_atEnd {walk rest : Walk α}
    (ended : track.ahead tokens = [] → Ends tokens answer track walk middle)
    (more : track.ahead tokens ≠ [] → Ends tokens answer track rest middle) :
    Ends tokens answer track (do if ← atEnd tokens then walk else rest) middle := by
  apply ends_atEnd
  split
  next isEmpty => exact ended (List.isEmpty_iff.mp isEmpty)
  next goesOn => exact more fun nil => goesOn (List.isEmpty_iff.mpr nil)

/-- A walk that has made sure that the tokens go on may ask for the next one. -/
theorem ends_look {walk : Walk α} {next : Token → Walk α}
    (ended : track.ahead tokens = [] → Ends tokens answer track walk middle)
    (found : ∀ token, tokens[track.cursor]? = some token →
      Ends tokens answer track (next token) middle) :
    Ends tokens answer track
      (do if ← atEnd tokens then walk else next (← current tokens)) middle := by
  apply ends_unless_atEnd ended
  intro more
  have inside : track.cursor < tokens.length := by
    rwa [Ne, ahead_eq_nil_iff, Nat.not_le] at more
  have here := List.getElem?_eq_getElem inside
  exact ends_current here (found _ here)

end Rules

end Juxta.Tree.Descent
