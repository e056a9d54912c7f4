/-
# Where parse errors point

The reader does not keep its tokens, and yet an error has to name one of them. While
a source text is read, operators that stand side by side among the branches are
tokens that stood side by side. So an operator that an expression is rejected for is
found among the tokens, and so is the pair of operators that leaves an expression
with nothing to blame.
-/

import Juxta.Proofs.Token.Scanned
import Juxta.Proofs.Tree.Continuation
import Juxta.Proofs.Tree.Leftover

namespace Juxta

namespace Token

/-- A bracket of a source text opens something, unless it closes something. -/
theorem IsGenuine.ofBracket?_ne_none {token : Token} (genuine : token.IsGenuine)
    (kind : token.kind = .bracket) (inner : token.isTerminator = false) :
    Tree.Opening.ofBracket? token ≠ none := by
  obtain ⟨byte, isBracket, text⟩ := genuine.bracket kind
  simp only [isTerminator, isMark, isPunctuation, kind, text] at inner
  simp only [isBracketByte, List.contains_iff_mem, List.mem_cons, List.not_mem_nil,
    or_false] at isBracket
  rw [Tree.Opening.ofBracket?, text]
  rcases isBracket with rfl | rfl | rfl | rfl | rfl | rfl
  · exact Option.some_ne_none _
  · cases inner
  · exact Option.some_ne_none _
  · cases inner
  · exact Option.some_ne_none _
  · cases inner

/-- A mark of a source text is a backslash, unless it ends an expression. -/
theorem IsGenuine.isMark_backslash {token : Token} (genuine : token.IsGenuine)
    (kind : token.kind = .special) (inner : token.isTerminator = false) :
    token.isMark Ascii.backslash := by
  obtain ⟨byte, isSpecial, text⟩ := genuine.special kind
  simp only [isTerminator, isMark, isPunctuation, kind, text] at inner
  simp only [isSpecialByte, List.contains_iff_mem, List.mem_cons, List.not_mem_nil,
    or_false] at isSpecial
  rcases isSpecial with rfl | rfl | rfl
  · simp [isMark, isPunctuation, kind, text]
  · cases inner
  · cases inner

end Token

namespace Tree

/-! ### Operators among the branches and among the tokens -/

/-- The branches that operator tokens become. -/
def leaves (operators : List Token) : List Tree :=
  operators.map fun token => operator token.text token.pos

/-- Operators that stand side by side among the branches, which are given last one first,
are tokens that stand side by side. -/
def Follows (past : List Token) (branches : List Tree) : Prop :=
  ∀ operators : List Token, (∀ token ∈ operators, token.kind = .operator) →
    leaves operators <:+: branches.reverse → operators <:+: past

/-- Operators at the end of the branches are the last tokens. -/
def Adjoins (past : List Token) (branches : List Tree) : Prop :=
  ∀ operators : List Token, (∀ token ∈ operators, token.kind = .operator) →
    leaves operators <:+ branches.reverse → operators <:+ past

variable {past : List Token} {branches : List Tree}

theorem follows_nil (past : List Token) : Follows past [] := by
  intro operators _ inside
  obtain rfl : operators = [] := by simpa [leaves] using inside
  exact List.nil_infix

theorem adjoins_nil (past : List Token) : Adjoins past [] := by
  intro operators _ ends
  obtain rfl : operators = [] := by simpa [leaves] using ends
  exact List.nil_suffix

/-- Operators at the end of the branches end with the last branch. -/
theorem leaves_suffix_cons {operators : List Token} {branch : Tree}
    (ends : leaves operators <:+ (branch :: branches).reverse) :
    operators = [] ∨ ∃ front token, operators = front ++ [token] ∧
      branch = operator token.text token.pos ∧ leaves front <:+ branches.reverse := by
  rw [List.reverse_cons, List.suffix_concat_iff] at ends
  rcases ends with none | ⟨before, same, ends⟩
  · exact .inl (List.map_eq_nil_iff.mp none)
  · obtain ⟨front, last, rfl, rfl, single⟩ := List.map_eq_append_iff.mp same
    obtain ⟨token, rfl, rfl⟩ := List.map_eq_singleton_iff.mp single
    exact .inr ⟨front, token, rfl, rfl, ends⟩

/-- No operators stand at the end behind an operand. -/
theorem adjoins_cons_operand (past : List Token) {operand : Tree}
    (kind : operand.isOperator = false) (branches : List Tree) :
    Adjoins past (operand :: branches) := by
  intro operators _ ends
  rcases leaves_suffix_cons ends with rfl | ⟨front, token, -, rfl, -⟩
  · exact List.nil_suffix
  · cases kind

theorem Adjoins.cons_operator (adjoins : Adjoins past branches) {token : Token}
    (kind : token.kind = .operator) :
    Adjoins (past ++ [token]) (operator token.text token.pos :: branches) := by
  intro operators kinds ends
  rcases leaves_suffix_cons ends with rfl | ⟨front, last, rfl, same, before⟩
  · exact List.nil_suffix
  · obtain ⟨frontKinds, lastKind⟩ := List.forall_mem_append.mp kinds
    obtain rfl : token = last := by
      injection same with text pos
      have kindOf := lastKind last List.mem_cons_self
      cases token
      cases last
      simp_all
    obtain ⟨earlier, rfl⟩ := adjoins front frontKinds before
    exact ⟨earlier, by simp⟩

theorem Follows.concat (follows : Follows past branches) (token : Token) :
    Follows (past ++ [token]) branches := by
  intro operators kinds inside
  exact (follows operators kinds inside).trans (List.prefix_append past [token]).isInfix

theorem Follows.cons (follows : Follows past branches) {branch : Tree}
    (adjoins : Adjoins past (branch :: branches)) : Follows past (branch :: branches) := by
  intro operators kinds inside
  rw [List.reverse_cons, List.infix_concat_iff] at inside
  rcases inside with ends | inside
  · rw [← List.reverse_cons] at ends
    exact (adjoins operators kinds ends).isInfix
  · exact follows operators kinds inside

/-! ### Tracking the tokens of a reading -/

/-- Some tokens lead from the start to a reading. -/
inductive Reached : List Token → Reading → Prop
  | start : Reached [] (.inside [] [])
  | extend {past : List Token} {reading later : Reading} {token : Token}
      (prior : Reached past reading) (goesOn : reading.next token = .goOn later) :
      Reached (past ++ [token]) later

/-- The operators of all unfinished expressions come from the tokens. -/
def FramesFollow (past : List Token) (frames : List Frame) : Prop :=
  ∀ frame ∈ frames, Follows past frame.before

theorem FramesFollow.concat {frames : List Frame} (follow : FramesFollow past frames)
    (token : Token) : FramesFollow (past ++ [token]) frames :=
  fun frame mem => (follow frame mem).concat token

theorem FramesFollow.cons {frames : List Frame} (follow : FramesFollow past frames)
    {frame : Frame} (before : Follows past frame.before) : FramesFollow past (frame :: frames) :=
  List.forall_mem_cons.mpr ⟨before, follow⟩

namespace Reading

/-- All operators of a reading come from the tokens before it, and it stands where the
last of these has led it. -/
def Tracked (past : List Token) : Reading → Prop
  | inside frames branches =>
      FramesFollow past frames ∧ Follows past branches ∧ Adjoins past branches
  | afterBackslash pos frames branches =>
      FramesFollow past frames ∧ Follows past branches ∧
        ∃ token ∈ past.getLast?, token.pos = pos ∧ token.isMark Ascii.backslash

/-- A token of a source text is tracked. -/
theorem tracked_of_advances {reading later : Reading} {token : Token}
    (tracked : reading.Tracked past) (genuine : token.IsGenuine)
    (advances : Advances token reading later) : later.Tracked (past ++ [token]) := by
  cases advances with
  | @operand frames branches branch kind =>
      have adjoins := adjoins_cons_operand (past ++ [token]) kind branches
      exact ⟨tracked.1.concat token, (tracked.2.1.concat token).cons adjoins, adjoins⟩
  | operator kind =>
      have adjoins := tracked.2.2.cons_operator kind
      exact ⟨tracked.1.concat token, (tracked.2.1.concat token).cons adjoins, adjoins⟩
  | skip kind inner idle => exact absurd idle (genuine.ofBracket?_ne_none kind inner)
  | @opens frames branches opening =>
      have before : Follows (past ++ [token]) (Frame.bracket opening branches).before :=
        tracked.2.1.concat token
      exact ⟨(tracked.1.concat token).cons before, follows_nil _, adjoins_nil _⟩
  | backslash kind inner =>
      have mark := genuine.isMark_backslash kind inner
      exact ⟨tracked.1.concat token, tracked.2.1.concat token, token, by simp, rfl, mark⟩
  | @parameter pos frames branches name =>
      have before : Follows (past ++ [token]) (Frame.body name branches).before :=
        tracked.2.1.concat token
      exact ⟨(tracked.1.concat token).cons before, follows_nil _, adjoins_nil _⟩
  | @completes frames branches tree branch enclosing settled kind =>
      obtain ⟨-, mem, subset⟩ := settle_eq_ok settled
      have outer : FramesFollow past enclosing.frames := fun frame inside =>
        tracked.1 frame (subset inside)
      have adjoins := adjoins_cons_operand (past ++ [token]) kind enclosing.before
      exact ⟨outer.concat token, ((tracked.1 _ mem).concat token).cons adjoins, adjoins⟩
  | @separates frames branches tree enclosing settled opening =>
      obtain ⟨-, mem, subset⟩ := settle_eq_ok settled
      have outer : FramesFollow past enclosing.frames := fun frame inside =>
        tracked.1 frame (subset inside)
      have before : Follows (past ++ [token]) (Frame.bracket opening enclosing.before).before :=
        (tracked.1 _ mem).concat token
      exact ⟨(outer.concat token).cons before, follows_nil _, adjoins_nil _⟩

end Reading

/-- Every reading of a source text is tracked. -/
theorem Reached.tracked {reading : Reading} (reached : Reached past reading)
    (genuine : ∀ token ∈ past, token.IsGenuine) : reading.Tracked past := by
  induction reached with
  | start => exact ⟨by simp [FramesFollow], follows_nil _, adjoins_nil _⟩
  | extend prior goesOn ih =>
      obtain ⟨before, last⟩ := List.forall_mem_append.mp genuine
      exact Reading.tracked_of_advances (ih before) (last _ List.mem_cons_self)
        (Reading.advances_of_next goesOn)

end Tree

/-! ### The tokens to blame -/

/-- An error tells where it is: it stands at the end of an input that lacks something, or at
one of the tokens. -/
def ParseError.IsLocated (tokens : List Token) (error : ParseError) : Prop :=
  (error.pos = ParseError.endPosition ∧ error.isIncomplete) ∨
    ∃ token ∈ tokens, error.pos = token.pos

/-- What some tokens can be rejected for. -/
inductive ParseError.Explained (tokens : List Token) : ParseError → Prop
  /-- They end too early. -/
  | ended (missing : ParseError.Missing) : Explained tokens (ParseError.ended missing)
  /-- One of them does not belong where it stands. -/
  | token {token : Token} {cause : ParseError.Cause} (mem : token ∈ tokens)
      (resolved : cause ≠ .unresolved) : Explained tokens ⟨token.pos, cause⟩
  /-- An unknown operator stands directly before one of the loosest tier. -/
  | pair {first second : Token} (inside : [first, second] <:+: tokens)
      (firstKind : first.kind = .operator) (unknown : Operator.isKnown first.text = false)
      (secondKind : second.kind = .operator)
      (loosest : Operator.inTier Operator.loosestTier second.text) :
      Explained tokens ⟨ParseError.endPosition, .unresolved⟩

namespace Tree

open ParseError (Explained)

theorem explained_of_infix {tokens : List Token} {error : ParseError}
    (explained : Explained past error) (inside : past <:+: tokens) : Explained tokens error := by
  cases explained with
  | ended missing => exact .ended missing
  | token mem resolved => exact .token (inside.subset mem) resolved
  | pair pair firstKind unknown secondKind loosest =>
      exact .pair (pair.trans inside) firstKind unknown secondKind loosest

/-- What is blamed among the branches is found among the tokens. -/
theorem explained_of_blames {error : ParseError} (follows : Follows past branches)
    (blames : Blames branches.reverse error) : Explained past error := by
  cases blames with
  | @operator text pos cause mem resolved =>
      have single : [operator text pos] <:+: branches.reverse := by
        obtain ⟨front, rest, same⟩ := List.append_of_mem mem
        exact ⟨front, rest, by simp [same]⟩
      have inside := follows [⟨.operator, text, pos⟩] (by simp) single
      exact Explained.token (inside.subset List.mem_cons_self) resolved
  | @nothing text text' pos pos' unknown loosest pair =>
      have inside := follows [⟨.operator, text, pos⟩, ⟨.operator, text', pos'⟩] (by simp) pair
      exact .pair inside rfl unknown rfl loosest

theorem explained_of_settle {atEnd : Bool} {frames : List Frame} {error : ParseError}
    (framesFollow : FramesFollow past frames) (follows : Follows past branches)
    (failed : settle atEnd frames branches = .error error) : Explained past error := by
  rcases settle_eq_error failed with rejected | ⟨frame, mem, operand, kind, rejected⟩
  · exact explained_of_blames follows (blames_of_resolve rejected)
  · have adjoins := adjoins_cons_operand past kind frame.before
    rw [← List.reverse_cons] at rejected
    exact explained_of_blames ((framesFollow frame mem).cons adjoins) (blames_of_resolve rejected)

/-- A terminator that an opening rejects is to blame. -/
theorem explained_of_close {opening : Opening} {tree : Tree} {token : Token} {error : ParseError}
    (rejected : opening.close tree token = .reject error) : Explained [token] error := by
  cases opening with
  | group pos =>
      simp only [Opening.close, closeGroup] at rejected
      split at rejected <;> cases rejected
      exact .token List.mem_cons_self (by simp)
  | items elements =>
      simp only [Opening.close, closeList] at rejected
      split at rejected <;> cases rejected
  | atKey entries =>
      simp only [Opening.close, closeKey] at rejected
      split at rejected
      · cases rejected
      · split at rejected
        · cases rejected
        · split at rejected <;> cases rejected
          exact .token List.mem_cons_self (by simp)
  | atValue entries key =>
      simp only [Opening.close, closeValue] at rejected
      split at rejected <;> cases rejected

namespace Reading

/-- A token that fails a tracked reading is to blame, or one before it is. -/
theorem explained_of_next {reading : Reading} {token : Token} {error : ParseError}
    (tracked : reading.Tracked past) (failed : reading.next token = .fail error) :
    Explained (past ++ [token]) error := by
  have earlier : past <:+: past ++ [token] := (List.prefix_append past [token]).isInfix
  have here : [token] <:+: past ++ [token] := (List.suffix_append past [token]).isInfix
  cases reading with
  | afterBackslash pos frames branches =>
      obtain ⟨-, -, backslash, last, rfl, -⟩ := tracked
      simp only [next] at failed
      split at failed <;> cases failed
      exact .token (earlier.subset (List.mem_of_getLast? last)) (by simp)
  | inside frames branches =>
      simp only [next] at failed
      split at failed
      · unfold atTerminator at failed
        split at failed
        next rejected =>
          cases failed
          exact explained_of_infix (explained_of_settle tracked.1 tracked.2.1 rejected) earlier
        next => cases failed
        next =>
          split at failed
          next => cases failed
          next => cases failed
          next rejected =>
            cases failed
            exact explained_of_infix (explained_of_close rejected) here
      · unfold atBranch at failed
        split at failed <;> try cases failed
        · split at failed <;> cases failed
        · exact .token (here.subset List.mem_cons_self) (by simp)

theorem explained_of_finish {reading : Reading} {error : ParseError}
    (tracked : reading.Tracked past) (failed : reading.finish = .error error) :
    Explained past error := by
  cases reading with
  | afterBackslash pos frames branches =>
      cases failed
      exact .ended _
  | inside frames branches =>
      rw [finish] at failed
      split at failed
      next rejected =>
        cases failed
        exact explained_of_settle tracked.1 tracked.2.1 rejected
      next => cases failed
      next =>
        cases failed
        exact .ended _

/-- What is left after a reading are its last tokens. -/
theorem suffix_of_run {reading : Reading} {tokens rest : List Token} {tree : Tree}
    (finished : reading.run tokens = .ok (tree, rest)) : rest <:+ tokens := by
  induction tokens generalizing reading with
  | nil =>
      obtain ⟨-, rfl⟩ := run_nil_eq_ok finished
      exact List.suffix_rfl
  | cons token tokens ih =>
      rcases run_cons_eq_ok finished with ⟨later, -, finished⟩ | ⟨-, rfl⟩
      · exact (ih finished).trans (List.suffix_cons token tokens)
      · exact List.suffix_rfl

end Reading

/-- A reading of a source text only fails for a reason that stands among the tokens. -/
theorem Reached.explained_of_run {reading : Reading} {rest : List Token} {error : ParseError}
    (reached : Reached past reading) (genuine : ∀ token ∈ past ++ rest, token.IsGenuine)
    (failed : reading.run rest = .error error) : Explained (past ++ rest) error := by
  induction rest generalizing past reading with
  | nil =>
      rw [List.append_nil] at genuine ⊢
      exact Reading.explained_of_finish (reached.tracked genuine) (Reading.run_nil_eq_error failed)
  | cons token rest ih =>
      rw [List.append_cons] at genuine ⊢
      rcases Reading.run_cons_eq_error failed with ⟨later, response, failed⟩ | response
      · exact ih (reached.extend response) genuine failed
      · have before : ∀ token ∈ past, token.IsGenuine := fun other mem =>
          genuine other (by simp [mem])
        have explained := Reading.explained_of_next (reached.tracked before) response
        exact explained_of_infix explained (List.prefix_append _ rest).isInfix

/-- A source text is only rejected for a reason that stands among its tokens. -/
theorem explained_of_parse {tokens : List Token} {error : ParseError}
    (genuine : ∀ token ∈ tokens, token.IsGenuine) (rejected : parse tokens = .error error) :
    Explained tokens error := by
  rw [parse, readExpression, read_eq_run] at rejected
  split at rejected
  next failed =>
    cases rejected
    exact Reached.start.explained_of_run genuine failed
  next => cases rejected
  next stopped =>
    cases rejected
    exact .token ((Reading.suffix_of_run stopped).subset List.mem_cons_self) (by simp)

/-- The rejection of a source text names the end of the input, where this lacks something,
or one of its tokens. The one exception is an expression of which only operands are left,
where an operator of the loosest tier has taken the unknown operator before it. -/
theorem parse_error_isLocated {source : Bytes} {tokens : List Token} {error : ParseError}
    (scanned : Token.scan source = .ok tokens) (rejected : parse tokens = .error error) :
    (error.IsLocated tokens ↔ error.cause ≠ .unresolved) ∧
      (error.cause = .unresolved → error.pos = -1 ∧ error.isIncomplete = false ∧
        ∃ first second, [first, second] <:+: tokens ∧
          first.kind = .operator ∧ Operator.isKnown first.text = false ∧
          second.kind = .operator ∧ Operator.inTier Operator.loosestTier second.text) := by
  have genuine := Token.holdsOfScanned_isGenuine.scan scanned
  cases explained_of_parse genuine rejected with
  | ended missing =>
      have located : (ParseError.ended missing).IsLocated tokens := .inl ⟨rfl, rfl⟩
      have resolved : (ParseError.ended missing).cause ≠ .unresolved := ParseError.Cause.noConfusion
      exact ⟨iff_of_true located resolved, fun unresolved => absurd unresolved resolved⟩
  | @token token cause mem resolved =>
      have located : ParseError.IsLocated tokens ⟨token.pos, cause⟩ := .inr ⟨token, mem, rfl⟩
      exact ⟨iff_of_true located resolved, fun unresolved => absurd unresolved resolved⟩
  | pair inside firstKind unknown secondKind loosest =>
      have lost : ¬ ParseError.IsLocated tokens ⟨ParseError.endPosition, .unresolved⟩ := by
        rintro (⟨-, incomplete⟩ | ⟨token, mem, same⟩)
        · cases incomplete
        · have offset := (genuine token mem).offset
          rw [← same] at offset
          exact absurd offset (by decide)
      exact ⟨iff_of_false lost fun resolved => resolved rfl, fun _ =>
        ⟨rfl, rfl, _, _, inside, firstKind, unknown, secondKind, loosest⟩⟩

/-- The operator is found in the brackets of a list element. -/
theorem parse_error_isLocated_element :
    let source := utf8 "[a, (b + ), c]"
    let tokens : List Token := [⟨.bracket, utf8 "[", 0⟩, ⟨.word, utf8 "a", 1⟩,
      ⟨.special, utf8 ",", 2⟩, ⟨.bracket, utf8 "(", 4⟩, ⟨.word, utf8 "b", 5⟩,
      ⟨.operator, utf8 "+", 7⟩, ⟨.bracket, utf8 ")", 9⟩, ⟨.special, utf8 ",", 10⟩,
      ⟨.word, utf8 "c", 12⟩, ⟨.bracket, utf8 "]", 13⟩]
    let error : ParseError := ⟨7, .missingRight (utf8 "+") false⟩
    Token.scan source = .ok tokens ∧ parse tokens = .error error ∧ error.IsLocated tokens := by
  intro source tokens error
  have scanned : Token.scan source = .ok tokens := by rfl
  have rejected : parse tokens = .error error := by rfl
  have located := (parse_error_isLocated scanned rejected).1
  exact ⟨scanned, rejected, located.mpr ParseError.Cause.noConfusion⟩

/-- The expression `a ~ & b` is rejected without a place, although nothing is missing at its
end: `&` takes the unknown operator and leaves `a` beside the combination. -/
theorem parse_error_not_isLocated :
    let tokens : List Token := [⟨.word, utf8 "a", 0⟩, ⟨.operator, utf8 "~", 2⟩,
      ⟨.operator, utf8 "&", 4⟩, ⟨.word, utf8 "b", 6⟩]
    let error : ParseError := ⟨-1, .unresolved⟩
    Token.scan (utf8 "a ~ & b") = .ok tokens ∧ parse tokens = .error error ∧
      error.isIncomplete = false ∧ ¬ error.IsLocated tokens := by
  intro tokens error
  have lost : ¬ error.IsLocated tokens := by
    rintro (⟨-, incomplete⟩ | ⟨token, mem, same⟩)
    · cases incomplete
    · have offsets : ∀ token ∈ tokens, error.pos ≠ token.pos := by decide
      exact offsets token mem same
  exact ⟨rfl, rfl, rfl, lost⟩

end Tree

end Juxta
