/-
# Trees without offsets

The reader keeps the offsets of tokens for its errors and for operators that
stand for themselves, and never looks at them. Forgetting every offset before
reading or after it is therefore the same, for trees and for errors. Token
sequences that differ in their offsets only are read alike.
-/

import Juxta.Proofs.Token.Spelling
import Juxta.Proofs.Tree.Pass
import Juxta.Proofs.Tree.Reading

namespace Juxta

namespace ParseError

/-- A cause without the offset it mentions. -/
def Cause.unplaced : Cause → Cause
  | unclosedParen _ found => unclosedParen endPosition found
  | cause => cause

/-- An error without its offsets. -/
def unplaced (error : ParseError) : ParseError := ⟨endPosition, error.cause.unplaced⟩

/-- A result without its offsets, where `forget` removes those of a success. -/
def unplacedResult {α β : Type} (forget : α → β) : Except ParseError α → Except ParseError β
  | .ok value => .ok (forget value)
  | .error error => .error error.unplaced

end ParseError

open ParseError (unplacedResult)

/-- A token without its offset. -/
def Token.unplaced (token : Token) : Token := { token with pos := ParseError.endPosition }

theorem Token.map_unplaced_eq {tokens others : List Token}
    (spelled : others.map lexeme = tokens.map lexeme) :
    others.map unplaced = tokens.map unplaced := by
  have decompose :
      unplaced = (fun item => ⟨item.kind, item.text, ParseError.endPosition⟩) ∘ lexeme := rfl
  rw [decompose, ← List.map_map, spelled, List.map_map]

namespace Tree

mutual

/-- A tree without its offsets. -/
def unplaced : Tree → Tree
  | expression child isEmpty => expression child.unplaced isEmpty
  | combination symbol left right => combination symbol left.unplaced right.unplaced
  | application callee argument => application callee.unplaced argument.unplaced
  | function parameter body => function parameter body.unplaced
  | list elements => list (unplacedElements elements)
  | dictionary entries => dictionary (unplacedEntries entries)
  | word name => word name
  | operator text _ => operator text ParseError.endPosition
  | number value => number value
  | string literal value => string literal value
  | null => null
  | hole => hole

/-- The elements of a list without their offsets. -/
def unplacedElements : List Tree → List Tree
  | [] => []
  | tree :: rest => tree.unplaced :: unplacedElements rest

/-- The entries of a dictionary without their offsets. -/
def unplacedEntries : List (Tree × Tree) → List (Tree × Tree)
  | [] => []
  | (key, value) :: rest => (key.unplaced, value.unplaced) :: unplacedEntries rest

end

theorem unplacedElements_eq_map (elements : List Tree) :
    unplacedElements elements = elements.map unplaced := by
  induction elements with
  | nil => rfl
  | cons tree rest ih => rw [unplacedElements, ih, List.map_cons]

/-- Both parts of an entry without their offsets. -/
def unplacedEntry (entry : Tree × Tree) : Tree × Tree := (entry.1.unplaced, entry.2.unplaced)

theorem unplacedEntries_eq_map (entries : List (Tree × Tree)) :
    unplacedEntries entries = entries.map unplacedEntry := by
  induction entries with
  | nil => rfl
  | cons entry rest ih => rw [unplacedEntries, ih, List.map_cons, unplacedEntry]

@[simp]
theorem unplaced_list (elements : List Tree) :
    (list elements).unplaced = list (elements.map unplaced) := by
  rw [unplaced, unplacedElements_eq_map]

@[simp]
theorem unplaced_dictionary (entries : List (Tree × Tree)) :
    (dictionary entries).unplaced = dictionary (entries.map unplacedEntry) := by
  rw [unplaced, unplacedEntries_eq_map]

@[simp]
theorem isOperator_unplaced (tree : Tree) : tree.unplaced.isOperator = tree.isOperator := by
  cases tree <;> rfl

@[simp]
theorem isNull_unplaced (tree : Tree) : tree.unplaced.isNull = tree.isNull := by
  cases tree <;> rfl

@[simp]
theorem isEmptyExpression_unplaced (tree : Tree) :
    tree.unplaced.isEmptyExpression = tree.isEmptyExpression := by
  cases tree <;> rfl

@[simp]
theorem child_unplaced (tree : Tree) : tree.unplaced.child = tree.child.unplaced := by
  cases tree <;> rfl

/-! ### Passes -/

namespace Progress

/-- The progress of a pass without its offsets. -/
def unplaced : Progress → Progress
  | settled done => settled (done.map Tree.unplaced)
  | waiting text _ left done =>
      waiting text ParseError.endPosition left.unplaced (done.map Tree.unplaced)

theorem next_unplaced (tier : List Operator) (progress : Progress) (branch : Tree) :
    progress.unplaced.next tier branch.unplaced = (progress.next tier branch).unplaced := by
  cases progress with
  | waiting text pos left done => simp [unplaced, Tree.unplaced]
  | settled done =>
      cases done with
      | nil => simp [unplaced]
      | cons last done =>
          cases kind : branch.isOperator with
          | true =>
              obtain ⟨text, pos, rfl⟩ := exists_of_isOperator kind
              rw [next_operator, unplaced, List.map_cons, Tree.unplaced, next_operator]
              split <;> simp [unplaced, Tree.unplaced]
          | false =>
              have kind' : branch.unplaced.isOperator = false := by rw [isOperator_unplaced, kind]
              rw [next_operand tier kind, unplaced, List.map_cons, next_operand tier kind',
                isOperator_unplaced]
              split <;> simp [unplaced, Tree.unplaced]

theorem foldl_unplaced (tier : List Operator) (branches : List Tree) (progress : Progress) :
    (branches.map Tree.unplaced).foldl (next tier) progress.unplaced =
      (branches.foldl (next tier) progress).unplaced := by
  induction branches generalizing progress with
  | nil => rfl
  | cons branch branches ih =>
      rw [List.map_cons, List.foldl_cons, next_unplaced, ih, List.foldl_cons]

theorem finish_unplaced (atEnd : Bool) (progress : Progress) :
    progress.unplaced.finish atEnd =
      unplacedResult (List.map Tree.unplaced) (progress.finish atEnd) := by
  cases progress with
  | settled done => simp [unplaced, finish, unplacedResult]
  | waiting text pos left done => rfl

end Progress

theorem passes_unplaced (atEnd : Bool) (tiers : List (List Operator)) (branches : List Tree) :
    passes atEnd tiers (branches.map unplaced) =
      unplacedResult (List.map unplaced) (passes atEnd tiers branches) := by
  induction tiers generalizing branches with
  | nil => rfl
  | cons tier tiers ih =>
      have first : pass tier atEnd [] (branches.map unplaced) =
          unplacedResult (List.map unplaced) (pass tier atEnd [] branches) := by
        rw [pass_eq_finish_foldl, pass_eq_finish_foldl, ← Progress.finish_unplaced,
          ← Progress.foldl_unplaced]
        rfl
      rw [passes, passes, first]
      cases pass tier atEnd [] branches with
      | error error => rfl
      | ok joined => exact ih joined

theorem leftover_unplaced (branches : List Tree) :
    leftover (branches.map unplaced) = (leftover branches).unplaced := by
  induction branches with
  | nil => rfl
  | cons branch rest ih =>
      cases branch with
      | operator text pos =>
          simp only [List.map_cons, unplaced, leftover, ParseError.unplaced]
          split <;> rfl
      | _ => simpa [unplaced, leftover] using ih

theorem resolve_unplaced (atEnd : Bool) (branches : List Tree) :
    resolve atEnd (branches.map unplaced) = unplacedResult unplaced (resolve atEnd branches) := by
  rw [resolve, resolve, passes_unplaced]
  cases passes atEnd Operator.tiers branches with
  | error error => rfl
  | ok joined =>
      match joined with
      | [] => rfl
      | [branch] => rfl
      | first :: second :: rest =>
          simp [unplacedResult, ← leftover_unplaced]

/-! ### Brackets -/

/-- An opening without its offsets. -/
def Opening.unplaced : Opening → Opening
  | group _ => group ParseError.endPosition
  | items elements => items (elements.map Tree.unplaced)
  | atKey entries => atKey (entries.map unplacedEntry)
  | atValue entries key => atValue (entries.map unplacedEntry) key.unplaced

/-- A frame without its offsets. -/
def Frame.unplaced : Frame → Frame
  | bracket opening before => bracket opening.unplaced (before.map Tree.unplaced)
  | body parameter before => body parameter (before.map Tree.unplaced)

/-- The innermost bracket without its offsets. -/
def Enclosing.unplaced (enclosing : Enclosing) : Enclosing :=
  ⟨enclosing.opening.unplaced, enclosing.before.map Tree.unplaced,
    enclosing.frames.map Frame.unplaced⟩

/-- What a terminator does, without the offsets. -/
def Closing.unplaced : Closing → Closing
  | complete branch => complete branch.unplaced
  | goOn opening => goOn opening.unplaced
  | reject error => reject error.unplaced

theorem settle_unplaced (atEnd : Bool) (frames : List Frame) (branches : List Tree) :
    settle atEnd (frames.map Frame.unplaced) (branches.map unplaced) =
      unplacedResult (Prod.map unplaced (Option.map Enclosing.unplaced))
        (settle atEnd frames branches) := by
  induction frames generalizing branches with
  | nil =>
      rw [List.map_nil, settle, settle, ← List.map_reverse, resolve_unplaced]
      cases resolve atEnd branches.reverse <;> rfl
  | cons frame frames ih =>
      rw [List.map_cons, settle, settle, ← List.map_reverse, resolve_unplaced]
      cases resolve atEnd branches.reverse with
      | error error => rfl
      | ok tree =>
          cases frame with
          | bracket opening before => rfl
          | body parameter before => exact ih (functionOf parameter tree :: before)

theorem close_unplaced (opening : Opening) (tree : Tree) (token : Token) :
    opening.unplaced.close tree.unplaced token.unplaced = (opening.close tree token).unplaced := by
  have marks (mark : UInt8) : token.unplaced.isMark mark = token.isMark mark := rfl
  cases opening with
  | group pos =>
      simp only [Opening.unplaced, Opening.close, closeGroup, marks]
      split <;> rfl
  | items elements =>
      simp only [Opening.unplaced, Opening.close, closeList, marks, isEmptyExpression_unplaced]
      split
      · split <;> simp [Closing.unplaced]
      · rfl
  | atKey entries =>
      simp only [Opening.unplaced, Opening.close, closeKey, marks, child_unplaced, isNull_unplaced]
      split
      · split <;> simp [Closing.unplaced, unplacedEntry]
      · split
        · rfl
        · split <;> rfl
  | atValue entries key =>
      simp only [Opening.unplaced, Opening.close, closeValue, marks]
      split
      · simp [Closing.unplaced, unplacedEntry]
      · rfl

theorem ofBracket?_unplaced (token : Token) :
    Opening.ofBracket? token.unplaced = (Opening.ofBracket? token).map Opening.unplaced := by
  have text : token.unplaced.text = token.text := rfl
  rw [Opening.ofBracket?, Opening.ofBracket?, text]
  by_cases paren : token.text == [Ascii.openParen]
  · rw [if_pos paren, if_pos paren]
    rfl
  · rw [if_neg paren, if_neg paren, apply_ite (Option.map Opening.unplaced),
      apply_ite (Option.map Opening.unplaced)]
    rfl

theorem missing_unplaced (opening : Opening) : opening.unplaced.missing = opening.missing := by
  cases opening <;> rfl

/-! ### Readings -/

namespace Reading

/-- A reading without its offsets. -/
def unplaced : Reading → Reading
  | inside frames branches => inside (frames.map Frame.unplaced) (branches.map Tree.unplaced)
  | afterBackslash _ frames branches =>
      afterBackslash ParseError.endPosition (frames.map Frame.unplaced) (branches.map Tree.unplaced)

/-- What a token does, without the offsets. -/
def Response.unplaced : Response → Response
  | goOn reading => goOn reading.unplaced
  | stop tree => stop tree.unplaced
  | fail error => fail error.unplaced

theorem atTerminator_unplaced (frames : List Frame) (branches : List Tree) (token : Token) :
    atTerminator (frames.map Frame.unplaced) (branches.map Tree.unplaced) token.unplaced =
      (atTerminator frames branches token).unplaced := by
  rw [atTerminator, atTerminator, settle_unplaced]
  cases settle false frames branches with
  | error error => rfl
  | ok settled =>
      obtain ⟨tree, enclosing?⟩ := settled
      cases enclosing? with
      | none => rfl
      | some enclosing =>
          simp only [unplacedResult, Prod.map, Option.map, Enclosing.unplaced, close_unplaced]
          cases enclosing.opening.close tree token <;> rfl

theorem atBranch_unplaced (frames : List Frame) (branches : List Tree) (token : Token) :
    atBranch (frames.map Frame.unplaced) (branches.map Tree.unplaced) token.unplaced =
      (atBranch frames branches token).unplaced := by
  have kind : token.unplaced.kind = token.kind := rfl
  rw [atBranch, atBranch, kind, ofBracket?_unplaced]
  cases token.kind with
  | bracket => cases Opening.ofBracket? token <;> rfl
  | _ => rfl

theorem next_unplaced (reading : Reading) (token : Token) :
    reading.unplaced.next token.unplaced = (reading.next token).unplaced := by
  have terminator : token.unplaced.isTerminator = token.isTerminator := rfl
  cases reading with
  | inside frames branches =>
      rw [unplaced, next, next, terminator, atTerminator_unplaced, atBranch_unplaced]
      split <;> rfl
  | afterBackslash pos frames branches =>
      rw [unplaced, next, next, terminator]
      split <;> rfl

theorem finish_unplaced (reading : Reading) :
    reading.unplaced.finish = unplacedResult Tree.unplaced reading.finish := by
  cases reading with
  | afterBackslash pos frames branches => rfl
  | inside frames branches =>
      rw [unplaced, finish, finish, settle_unplaced]
      cases settle true frames branches with
      | error error => rfl
      | ok settled =>
          obtain ⟨tree, enclosing?⟩ := settled
          cases enclosing? with
          | none => rfl
          | some enclosing =>
              simp only [unplacedResult, Prod.map, Option.map, Enclosing.unplaced, missing_unplaced]
              rfl

theorem run_unplaced (tokens : List Token) (reading : Reading) :
    reading.unplaced.run (tokens.map Token.unplaced) =
      unplacedResult (Prod.map Tree.unplaced (List.map Token.unplaced)) (reading.run tokens) := by
  induction tokens generalizing reading with
  | nil =>
      rw [List.map_nil, run, run, finish_unplaced]
      cases reading.finish <;> rfl
  | cons token rest ih =>
      rw [List.map_cons, run, run, next_unplaced]
      cases reading.next token with
      | goOn later => exact ih later
      | stop tree => rfl
      | fail error => rfl

end Reading

/-- Offsets may be forgotten before reading or after it. -/
theorem parse_unplaced (tokens : List Token) :
    parse (tokens.map Token.unplaced) = unplacedResult unplaced (parse tokens) := by
  rw [parse, parse, readExpression, readExpression, read_eq_run, read_eq_run]
  have run := Reading.run_unplaced tokens (.inside [] [])
  rw [Reading.unplaced, List.map_nil, List.map_nil] at run
  rw [run]
  cases (Reading.inside [] []).run tokens with
  | error error => rfl
  | ok result =>
      obtain ⟨tree, rest⟩ := result
      cases rest <;> rfl

/-- Tokens that differ in their offsets only are read as the same tree, up to the
offsets in it. -/
theorem exists_parse_of_map_lexeme {tokens others : List Token}
    (spelled : others.map Token.lexeme = tokens.map Token.lexeme) {tree : Tree}
    (parsed : parse tokens = .ok tree) :
    ∃ other, parse others = .ok other ∧ other.unplaced = tree.unplaced := by
  have same : unplacedResult unplaced (parse others) = .ok tree.unplaced := by
    rw [← parse_unplaced, Token.map_unplaced_eq spelled, parse_unplaced, parsed]
    rfl
  cases result : parse others with
  | error error =>
      rw [result] at same
      cases same
  | ok other =>
      rw [result] at same
      exact ⟨other, rfl, Except.ok.inj same⟩

end Tree

end Juxta
