/-
# Reading tokens one by one

The reader looks one token ahead after a backslash. Here the backslash is kept
instead, until the token behind it arrives. Reading then takes the tokens one by
one: a token leads to the next state, stops the reading, or fails it. The two
ways of reading agree on all tokens, so what one token can do is said once, in
`Advances`, and every statement about a whole reading follows by induction on
the tokens.
-/

import Juxta.Tree.Read

namespace Juxta.Tree

/-- Where the reader stands between two tokens. -/
inductive Reading
  /-- Inside some frames, with the branches read so far, last one first. -/
  | inside (frames : List Frame) (branches : List Tree)
  /-- After the backslash of a function literal at an offset. -/
  | afterBackslash (pos : Int) (frames : List Frame) (branches : List Tree)

namespace Reading

/-- What one token does to a reading. -/
inductive Response
  /-- Reading goes on after the token. -/
  | goOn (reading : Reading)
  /-- The token belongs to no frame, and the expression before it is complete. -/
  | stop (tree : Tree)
  /-- The token does not belong there. -/
  | fail (error : ParseError)

/-- What a terminator does to a reading. -/
def atTerminator (frames : List Frame) (branches : List Tree) (token : Token) : Response :=
  match settle false frames branches with
  | .error error => .fail error
  | .ok (tree, none) => .stop tree
  | .ok (tree, some ⟨opening, before, frames⟩) =>
      match opening.close tree token with
      | .complete branch => .goOn (inside frames (branch :: before))
      | .goOn opening => .goOn (inside (.bracket opening before :: frames) [])
      | .reject error => .fail error

/-- What a token that ends no expression does to a reading. -/
def atBranch (frames : List Frame) (branches : List Tree) (token : Token) : Response :=
  match token.kind with
  | .bracket =>
      match Opening.ofBracket? token with
      | some opening => .goOn (inside (.bracket opening branches :: frames) [])
      | none => .goOn (inside frames branches)
  | .special => .goOn (afterBackslash token.pos frames branches)
  | .word => .goOn (inside frames (word token.text :: branches))
  | .operator => .goOn (inside frames (operator token.text token.pos :: branches))
  | .number value => .goOn (inside frames (number value :: branches))
  | .string value => .goOn (inside frames (string token.text value :: branches))
  | .null => .goOn (inside frames (null :: branches))
  | .foreign name => .fail ⟨token.pos, .unknownKind name⟩

/-- What a token does to a reading. -/
def next : Reading → Token → Response
  | inside frames branches, token =>
      if token.isTerminator then atTerminator frames branches token
      else atBranch frames branches token
  | afterBackslash pos frames branches, token =>
      if token.isTerminator then .fail ⟨pos, .malformedFunction token.text⟩
      else .goOn (inside (.body (parameterName token) branches :: frames) [])

/-- What the end of the tokens does to a reading. -/
def finish : Reading → Except ParseError Tree
  | inside frames branches =>
      match settle true frames branches with
      | .error error => .error error
      | .ok (tree, none) => .ok tree
      | .ok (_, some enclosing) => .error (ParseError.ended enclosing.opening.missing)
  | afterBackslash _ _ _ => .error (ParseError.ended .parameter)

/-- Reads on from a reading. What is left are the tokens from the one that
stopped it. -/
def run : Reading → List Token → Except ParseError (Tree × List Token)
  | reading, [] => reading.finish.map (·, [])
  | reading, token :: rest =>
      match reading.next token with
      | .goOn reading => reading.run rest
      | .stop tree => .ok (tree, token :: rest)
      | .fail error => .error error

end Reading

/-- The reader takes its tokens one by one. -/
theorem read_eq_run (frames : List Frame) (branches : List Tree) (tokens : List Token) :
    read frames branches tokens = (Reading.inside frames branches).run tokens := by
  -- Each case of the reader is one step, and a backslash with its parameter is two.
  fun_induction read frames branches tokens <;>
    simp_all [Reading.run, Reading.next, Reading.finish, Reading.atTerminator, Reading.atBranch,
      Except.map]

/-- A parsed program is read to its end. -/
theorem run_of_parse {tokens : List Token} {tree : Tree} (parsed : parse tokens = .ok tree) :
    (Reading.inside [] []).run tokens = .ok (tree, []) := by
  rw [parse, readExpression, read_eq_run] at parsed
  split at parsed <;> cases parsed
  assumption

/-- The branches around what a frame holds, last one first. -/
def Frame.before : Frame → List Tree
  | bracket _ before => before
  | body _ before => before

/-- What resolves is an expression. -/
theorem isOperator_of_resolve {atEnd : Bool} {branches : List Tree} {tree : Tree}
    (resolved : resolve atEnd branches = .ok tree) : tree.isOperator = false := by
  unfold resolve at resolved
  split at resolved <;> cases resolved <;> rfl

/-- A settled expression is an operand, and what is around it was around it
before. -/
theorem settle_eq_ok {atEnd : Bool} {frames : List Frame} {branches : List Tree} {tree : Tree}
    {enclosing : Enclosing} (settled : settle atEnd frames branches = .ok (tree, some enclosing)) :
    tree.isOperator = false ∧ .bracket enclosing.opening enclosing.before ∈ frames ∧
      enclosing.frames ⊆ frames := by
  induction frames generalizing branches with
  | nil =>
      rw [settle] at settled
      split at settled <;> cases settled
  | cons frame frames ih =>
      rw [settle] at settled
      split at settled
      · cases settled
      next resolved =>
        cases frame with
        | bracket opening before =>
            cases settled
            exact ⟨isOperator_of_resolve resolved, by simp, by simp⟩
        | body parameter before =>
            obtain ⟨operand, mem, subset⟩ := ih settled
            exact ⟨operand, by simp [mem], fun other inside => by simp [subset inside]⟩

/-- A bracket that a terminator completes is an operand. -/
theorem isOperator_of_close {opening : Opening} {tree branch : Tree} {token : Token}
    (operand : tree.isOperator = false) (closed : opening.close tree token = .complete branch) :
    branch.isOperator = false := by
  cases opening with
  | group pos =>
      simp only [Opening.close, closeGroup] at closed
      split at closed <;> cases closed
      exact operand
  | items elements =>
      simp only [Opening.close, closeList] at closed
      split at closed <;> cases closed
      rfl
  | atKey entries =>
      simp only [Opening.close, closeKey] at closed
      split at closed
      · cases closed
        rfl
      · split at closed
        · cases closed
        · split at closed <;> cases closed
  | atValue entries key =>
      simp only [Opening.close, closeValue] at closed
      split at closed <;> cases closed
      rfl

namespace Reading

/-- What a token can do to a reading that goes on. -/
inductive Advances (token : Token) : Reading → Reading → Prop
  /-- The token is an operand of its own. -/
  | operand {frames branches} {branch : Tree} (operand : branch.isOperator = false) :
      Advances token (inside frames branches) (inside frames (branch :: branches))
  /-- The token is an operator. -/
  | operator {frames branches} (kind : token.kind = .operator) :
      Advances token (inside frames branches)
        (inside frames (.operator token.text token.pos :: branches))
  /-- The token is a bracket that opens nothing. -/
  | skip {frames branches} (kind : token.kind = .bracket) (inner : token.isTerminator = false)
      (idle : Opening.ofBracket? token = none) :
      Advances token (inside frames branches) (inside frames branches)
  /-- The token opens a bracket. -/
  | opens {frames branches} (opening : Opening) :
      Advances token (inside frames branches) (inside (.bracket opening branches :: frames) [])
  /-- The token is a backslash. -/
  | backslash {frames branches} (kind : token.kind = .special)
      (inner : token.isTerminator = false) :
      Advances token (inside frames branches) (afterBackslash token.pos frames branches)
  /-- The token is the parameter of a function literal. -/
  | parameter {pos frames branches} (name : Bytes) :
      Advances token (afterBackslash pos frames branches)
        (inside (.body name branches :: frames) [])
  /-- The token completes a bracket. -/
  | completes {frames branches} {tree branch : Tree} {enclosing : Enclosing}
      (settled : settle false frames branches = .ok (tree, some enclosing))
      (operand : branch.isOperator = false) (terminates : token.isTerminator)
      (closed : enclosing.opening.close tree token = .complete branch) :
      Advances token (inside frames branches)
        (inside enclosing.frames (branch :: enclosing.before))
  /-- The token separates two parts of a bracket. -/
  | separates {frames branches} {tree : Tree} {enclosing : Enclosing}
      (settled : settle false frames branches = .ok (tree, some enclosing)) (opening : Opening)
      (terminates : token.isTerminator)
      (closed : enclosing.opening.close tree token = .goOn opening) :
      Advances token (inside frames branches)
        (inside (.bracket opening enclosing.before :: enclosing.frames) [])

/-- A reading goes on in one of these ways. -/
theorem advances_of_next {reading later : Reading} {token : Token}
    (goesOn : reading.next token = .goOn later) : Advances token reading later := by
  cases reading with
  | afterBackslash pos frames branches =>
      simp only [next] at goesOn
      split at goesOn <;> cases goesOn
      exact .parameter _
  | inside frames branches =>
      simp only [next] at goesOn
      split at goesOn
      next terminates =>
        unfold atTerminator at goesOn
        split at goesOn
        · cases goesOn
        · cases goesOn
        next settled =>
          split at goesOn
          next closed =>
            cases goesOn
            have operand := isOperator_of_close (settle_eq_ok settled).1 closed
            exact .completes settled operand terminates closed
          next closed =>
            cases goesOn
            exact .separates settled _ terminates closed
          next => cases goesOn
      next goes =>
        have inner : token.isTerminator = false := by simpa using goes
        unfold atBranch at goesOn
        split at goesOn
        next kind =>
          split at goesOn <;> cases goesOn
          · exact .opens _
          next idle => exact .skip kind inner idle
        next kind =>
          cases goesOn
          exact .backslash kind inner
        next kind =>
          cases goesOn
          exact .operand rfl
        next kind =>
          cases goesOn
          exact .operator kind
        next =>
          cases goesOn
          exact .operand rfl
        next =>
          cases goesOn
          exact .operand rfl
        next =>
          cases goesOn
          exact .operand rfl
        next => cases goesOn

/-- Only a settled expression outside all brackets stops a reading. -/
theorem settle_of_next_eq_stop {reading : Reading} {token : Token} {tree : Tree}
    (stops : reading.next token = .stop tree) :
    ∃ frames branches, reading = inside frames branches ∧
      settle false frames branches = .ok (tree, none) := by
  cases reading with
  | afterBackslash pos frames branches =>
      simp only [next] at stops
      split at stops <;> cases stops
  | inside frames branches =>
      simp only [next] at stops
      split at stops
      · unfold atTerminator at stops
        split at stops
        · cases stops
        next settled =>
          cases stops
          exact ⟨frames, branches, rfl, settled⟩
        · split at stops <;> cases stops
      · unfold atBranch at stops
        split at stops <;> try cases stops
        split at stops <;> cases stops

/-- Only a settled expression outside all brackets ends with the tokens. -/
theorem settle_of_finish_eq_ok {reading : Reading} {tree : Tree}
    (finished : reading.finish = .ok tree) :
    ∃ frames branches, reading = inside frames branches ∧
      settle true frames branches = .ok (tree, none) := by
  cases reading with
  | afterBackslash pos frames branches => cases finished
  | inside frames branches =>
      rw [finish] at finished
      split at finished
      · cases finished
      next settled =>
        cases finished
        exact ⟨frames, branches, rfl, settled⟩
      · cases finished

section Run

variable {reading : Reading} {token : Token} {tokens rest : List Token} {tree : Tree}
  {error : ParseError}

theorem run_nil_eq_ok (finished : reading.run [] = .ok (tree, rest)) :
    reading.finish = .ok tree ∧ rest = [] := by
  rw [run] at finished
  cases last : reading.finish with
  | error error =>
      rw [last] at finished
      cases finished
  | ok result =>
      rw [last] at finished
      cases finished
      exact ⟨rfl, rfl⟩

/-- A reading succeeds by going on after its first token or by stopping there. -/
theorem run_cons_eq_ok (finished : reading.run (token :: tokens) = .ok (tree, rest)) :
    (∃ later, reading.next token = .goOn later ∧ later.run tokens = .ok (tree, rest)) ∨
      reading.next token = .stop tree ∧ rest = token :: tokens := by
  rw [run] at finished
  split at finished
  next later response => exact .inl ⟨later, response, finished⟩
  next response =>
    cases finished
    exact .inr ⟨response, rfl⟩
  next => cases finished

theorem run_nil_eq_error (failed : reading.run [] = .error error) :
    reading.finish = .error error := by
  rw [run] at failed
  cases last : reading.finish with
  | ok tree =>
      rw [last] at failed
      cases failed
  | error stopped =>
      rw [last] at failed
      cases failed
      rfl

/-- A reading fails after its first token or at it. -/
theorem run_cons_eq_error (failed : reading.run (token :: tokens) = .error error) :
    (∃ later, reading.next token = .goOn later ∧ later.run tokens = .error error) ∨
      reading.next token = .fail error := by
  rw [run] at failed
  split at failed
  next later response => exact .inl ⟨later, response, failed⟩
  next => cases failed
  next response =>
    cases failed
    exact .inr response

end Run

/-- Some tokens lead from one reading to another, whatever follows them. -/
def LeadsTo (reading : Reading) (tokens : List Token) (later : Reading) : Prop :=
  ∀ rest, reading.run (tokens ++ rest) = later.run rest

variable {reading middle later : Reading} {tokens tokens' : List Token}

theorem leadsTo_nil (reading : Reading) : reading.LeadsTo [] reading := fun _ => rfl

theorem LeadsTo.cons {token : Token} (goesOn : reading.next token = .goOn middle)
    (leads : middle.LeadsTo tokens later) : reading.LeadsTo (token :: tokens) later := by
  intro rest
  rw [List.cons_append, run, goesOn]
  exact leads rest

theorem LeadsTo.append (first : reading.LeadsTo tokens middle)
    (second : middle.LeadsTo tokens' later) : reading.LeadsTo (tokens ++ tokens') later := by
  intro rest
  rw [List.append_assoc, first, second]

/-- After an expression that resolves, a terminator does what the bracket around
it makes of it. -/
theorem next_terminator {opening : Opening} {before branches : List Tree} {frames : List Frame}
    {tree : Tree} {token : Token} (terminates : token.isTerminator)
    (resolved : resolve false branches.reverse = .ok tree) :
    (inside (.bracket opening before :: frames) branches).next token =
      match opening.close tree token with
      | .complete branch => .goOn (inside frames (branch :: before))
      | .goOn opening => .goOn (inside (.bracket opening before :: frames) [])
      | .reject error => .fail error := by
  rw [next, if_pos terminates, atTerminator, settle, resolved]

end Reading

end Juxta.Tree
