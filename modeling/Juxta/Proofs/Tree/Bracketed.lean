/-
# Bracketed forms

An expression is read in the same way inside brackets as on its own. A reading
touches the frames around it only when it has completed every frame of its own,
so a token sequence that is a program leads through any outer frames to the same
branches, and the next terminator finds its tree. The forms of the language that
are built from whole expressions, which are the parenthesis, the list, the
dictionary and the function literal, are therefore read part by part.
-/

import Juxta.Proofs.Tree.Unplaced

namespace Juxta.Tree

/-! ### Success does not depend on what follows -/

theorem passes_atEnd {atEnd : Bool} {tiers : List (List Operator)} {branches joined : List Tree}
    (passed : passes atEnd tiers branches = .ok joined) (atEnd' : Bool) :
    passes atEnd' tiers branches = .ok joined := by
  induction tiers generalizing branches with
  | nil => exact passed
  | cons tier tiers ih =>
      rw [passes, pass_eq_finish_foldl] at passed ⊢
      cases progress : branches.foldl (Progress.next tier) (.settled []) with
      | settled done =>
          rw [progress] at passed
          exact ih passed
      | waiting text pos left done =>
          rw [progress] at passed
          cases passed

theorem resolve_atEnd {atEnd : Bool} {branches : List Tree} {tree : Tree}
    (resolved : resolve atEnd branches = .ok tree) (atEnd' : Bool) :
    resolve atEnd' branches = .ok tree := by
  unfold resolve at resolved
  split at resolved
  next => cases resolved
  next passed =>
    rw [resolve, passes_atEnd passed]
    exact resolved
  next passed =>
    rw [resolve, passes_atEnd passed]
    exact resolved
  next => cases resolved

/-! ### Outer frames -/

/-- What the frames around a completed expression make of it. -/
def complete (atEnd : Bool) (tree : Tree) :
    List Frame → Except ParseError (Tree × Option Enclosing)
  | [] => .ok (tree, none)
  | .bracket opening before :: frames => .ok (tree, some ⟨opening, before, frames⟩)
  | .body parameter before :: frames => settle atEnd frames (functionOf parameter tree :: before)

theorem settle_eq_complete {atEnd : Bool} {branches : List Tree} {tree : Tree}
    (resolved : resolve atEnd branches.reverse = .ok tree) (frames : List Frame) :
    settle atEnd frames branches = complete atEnd tree frames := by
  cases frames with
  | nil => rw [settle, resolved, complete]
  | cons frame frames => cases frame <;> rw [settle, resolved, complete]

/-- A settled expression has resolved, and the frames around it have settled. -/
theorem complete_of_settle {atEnd : Bool} {frames : List Frame} {branches : List Tree}
    {settled : Tree × Option Enclosing} (settles : settle atEnd frames branches = .ok settled) :
    ∃ tree, resolve atEnd branches.reverse = .ok tree ∧
      complete atEnd tree frames = .ok settled := by
  cases resolved : resolve atEnd branches.reverse with
  | error error =>
      rw [settle.eq_def, resolved] at settles
      cases settles
  | ok tree =>
      rw [settle_eq_complete resolved] at settles
      exact ⟨tree, rfl, settles⟩

/-- An expression that settles outside all brackets goes on to the outer frames. -/
theorem settle_append_of_none {atEnd : Bool} {frames : List Frame} {branches : List Tree}
    {tree : Tree} (settled : settle atEnd frames branches = .ok (tree, none)) (atEnd' : Bool)
    (outer : List Frame) :
    settle atEnd' (frames ++ outer) branches = complete atEnd' tree outer := by
  induction frames generalizing branches with
  | nil =>
      obtain ⟨inner, resolved, completed⟩ := complete_of_settle settled
      cases completed
      exact settle_eq_complete (resolve_atEnd resolved atEnd') outer
  | cons frame frames ih =>
      obtain ⟨inner, resolved, completed⟩ := complete_of_settle settled
      rw [settle_eq_complete (resolve_atEnd resolved atEnd')]
      cases frame with
      | bracket opening before => cases completed
      | body parameter before => exact ih completed

/-- An expression that settles in a bracket does so under any outer frames. -/
theorem settle_append_of_some {atEnd : Bool} {frames : List Frame} {branches : List Tree}
    {tree : Tree} {enclosing : Enclosing}
    (settled : settle atEnd frames branches = .ok (tree, some enclosing)) (outer : List Frame) :
    settle atEnd (frames ++ outer) branches =
      .ok (tree, some ⟨enclosing.opening, enclosing.before, enclosing.frames ++ outer⟩) := by
  induction frames generalizing branches with
  | nil =>
      obtain ⟨inner, -, completed⟩ := complete_of_settle settled
      cases completed
  | cons frame frames ih =>
      obtain ⟨inner, resolved, completed⟩ := complete_of_settle settled
      rw [settle_eq_complete resolved]
      cases frame with
      | bracket opening before =>
          cases completed
          rfl
      | body parameter before => exact ih completed

namespace Reading

/-- The same reading under outer frames. -/
def under (outer : List Frame) : Reading → Reading
  | inside frames branches => inside (frames ++ outer) branches
  | afterBackslash pos frames branches => afterBackslash pos (frames ++ outer) branches

theorem atTerminator_append {frames : List Frame} {branches : List Tree} {token : Token}
    {later : Reading} (goesOn : atTerminator frames branches token = .goOn later)
    (outer : List Frame) :
    atTerminator (frames ++ outer) branches token = .goOn (later.under outer) := by
  rw [atTerminator] at goesOn
  split at goesOn
  · cases goesOn
  · cases goesOn
  next settled =>
    rw [atTerminator, settle_append_of_some settled]
    split at goesOn
    next closed =>
      cases goesOn
      simp only [closed]
      rfl
    next closed =>
      cases goesOn
      simp only [closed]
      rfl
    next => cases goesOn

theorem atBranch_append {frames : List Frame} {branches : List Tree} {token : Token}
    {later : Reading} (goesOn : atBranch frames branches token = .goOn later)
    (outer : List Frame) :
    atBranch (frames ++ outer) branches token = .goOn (later.under outer) := by
  rw [atBranch] at goesOn ⊢
  cases kind : token.kind with
  | bracket =>
      rw [kind] at goesOn
      cases opened : Opening.ofBracket? token <;> simp only [opened] at goesOn ⊢ <;>
        cases goesOn <;> rfl
  | foreign name =>
      rw [kind] at goesOn
      cases goesOn
  | _ =>
      rw [kind] at goesOn
      cases goesOn
      rfl

/-- As long as a reading goes on, it goes on alike under outer frames. -/
theorem next_under {reading later : Reading} {token : Token}
    (goesOn : reading.next token = .goOn later) (outer : List Frame) :
    (reading.under outer).next token = .goOn (later.under outer) := by
  cases reading with
  | afterBackslash pos frames branches =>
      rw [next] at goesOn
      split at goesOn
      · cases goesOn
      next isBranch =>
        cases goesOn
        simp only [under, next, if_neg isBranch, List.cons_append]
  | inside frames branches =>
      rw [next] at goesOn
      rw [under, next]
      split at goesOn
      next terminator => rw [if_pos terminator, atTerminator_append goesOn]
      next isBranch => rw [if_neg isBranch, atBranch_append goesOn]

/-- Tokens that are read to their end lead through outer frames to the reading
that they end in. -/
theorem exists_leadsTo_of_run {tokens : List Token} {reading : Reading} {tree : Tree}
    (ran : reading.run tokens = .ok (tree, [])) :
    ∃ frames branches, settle true frames branches = .ok (tree, none) ∧
      ∀ outer, (reading.under outer).LeadsTo tokens (inside (frames ++ outer) branches) := by
  induction tokens generalizing reading with
  | nil =>
      obtain ⟨frames, branches, rfl, settled⟩ := settle_of_finish_eq_ok (run_nil_eq_ok ran).1
      exact ⟨frames, branches, settled, fun outer => leadsTo_nil _⟩
  | cons token rest ih =>
      rcases run_cons_eq_ok ran with ⟨later, goesOn, ran⟩ | ⟨-, same⟩
      · obtain ⟨frames, branches, settled, leads⟩ := ih ran
        refine ⟨frames, branches, settled, fun outer => ?_⟩
        exact .cons (next_under goesOn outer) (leads outer)
      · cases same

end Reading

open Reading (inside)

/-- A program leads through outer frames to branches that settle to its tree. -/
theorem exists_leadsTo_of_parse {tokens : List Token} {tree : Tree}
    (parsed : parse tokens = .ok tree) :
    ∃ frames branches,
      (∀ atEnd outer, settle atEnd (frames ++ outer) branches = complete atEnd tree outer) ∧
      ∀ outer, (inside outer []).LeadsTo tokens (inside (frames ++ outer) branches) := by
  obtain ⟨frames, branches, settled, leads⟩ := Reading.exists_leadsTo_of_run (run_of_parse parsed)
  exact ⟨frames, branches, settle_append_of_none settled, leads⟩

section Terminator

variable {tokens : List Token} {tree : Tree} {token : Token}

/-- A program in a bracket leads to branches that settle to its tree in that
bracket. -/
theorem exists_settle_of_parse (parsed : parse tokens = .ok tree) (opening : Opening)
    (before : List Tree) (outer : List Frame) :
    ∃ frames branches, settle false frames branches = .ok (tree, some ⟨opening, before, outer⟩) ∧
      (inside (.bracket opening before :: outer) []).LeadsTo tokens (inside frames branches) := by
  obtain ⟨frames, branches, settled, leads⟩ := exists_leadsTo_of_parse parsed
  exact ⟨frames ++ .bracket opening before :: outer, branches, settled false _, leads _⟩

variable {opening : Opening}

/-- A program in a bracket, up to the terminator that completes the bracket. -/
theorem leadsTo_complete (parsed : parse tokens = .ok tree) (terminates : token.isTerminator)
    {branch : Tree} (closes : opening.close tree token = .complete branch) (before : List Tree)
    (outer : List Frame) :
    (inside (.bracket opening before :: outer) []).LeadsTo (tokens ++ [token])
      (inside outer (branch :: before)) := by
  obtain ⟨frames, branches, settled, leads⟩ := exists_settle_of_parse parsed opening before outer
  refine leads.append (.cons ?_ (Reading.leadsTo_nil _))
  simp only [Reading.next, if_pos terminates, Reading.atTerminator, settled, closes]

/-- A program in a bracket, up to a terminator after which the bracket goes on. -/
theorem leadsTo_goOn (parsed : parse tokens = .ok tree) (terminates : token.isTerminator)
    {opening' : Opening} (goesOn : opening.close tree token = .goOn opening')
    (before : List Tree) (outer : List Frame) :
    (inside (.bracket opening before :: outer) []).LeadsTo (tokens ++ [token])
      (inside (.bracket opening' before :: outer) []) := by
  obtain ⟨frames, branches, settled, leads⟩ := exists_settle_of_parse parsed opening before outer
  refine leads.append (.cons ?_ (Reading.leadsTo_nil _))
  simp only [Reading.next, if_pos terminates, Reading.atTerminator, settled, goesOn]

end Terminator

/-! ### The forms -/

/-- One or more pieces with commas between them, and perhaps one after the last
of them. A piece is told whether a comma follows it. -/
inductive Separated {α : Type} (piece : Bool → List Token → α → Prop) :
    List Token → List α → Prop
  | last {tokens : List Token} {item : α} (final : piece false tokens item) :
      Separated piece tokens [item]
  | lastComma {tokens : List Token} {item : α} {comma : Token} (first : piece true tokens item)
      (isComma : comma.isMark Ascii.comma) : Separated piece (tokens ++ [comma]) [item]
  | cons {tokens rest : List Token} {item : α} {items : List α} {comma : Token}
      (first : piece true tokens item) (isComma : comma.isMark Ascii.comma)
      (later : Separated piece rest items) :
      Separated piece (tokens ++ comma :: rest) (item :: items)

/-- Some tokens are an element of a list. Before the closing bracket it is not
empty. -/
structure IsElement (beforeComma : Bool) (tokens : List Token) (element : Tree) : Prop where
  parsed : parse tokens = .ok element
  kept : beforeComma ∨ element.isEmptyExpression = false

/-- Some tokens are an entry of a dictionary: a key with a value, or a key that is
its own value. Before the closing brace the latter is not null. -/
inductive IsEntry (beforeComma : Bool) : List Token → Tree × Tree → Prop
  | keyed {keyTokens valueTokens : List Token} {key value : Tree} {colon : Token}
      (parsedKey : parse keyTokens = .ok key) (isColon : colon.isMark Ascii.colon)
      (parsedValue : parse valueTokens = .ok value) :
      IsEntry beforeComma (keyTokens ++ colon :: valueTokens) (key.child, value)
  | bare {tokens : List Token} {key : Tree} (parsed : parse tokens = .ok key)
      (kept : beforeComma ∨ key.child.isNull = false) :
      IsEntry beforeComma tokens (key.child, key)

/-- The forms that are built from whole expressions, with the node of each. -/
inductive Bracketed : List Token → Tree → Prop
  | group {tokens : List Token} {tree : Tree} {closing : Token} (pos : Int)
      (parsed : parse tokens = .ok tree) (closes : closing.isMark Ascii.closeParen) :
      Bracketed (⟨.bracket, [Ascii.openParen], pos⟩ :: tokens ++ [closing]) tree
  | list {tokens : List Token} {elements : List Tree} {closing : Token} (pos : Int)
      (separated : Separated IsElement tokens elements)
      (closes : closing.isMark Ascii.closeBracket) :
      Bracketed (⟨.bracket, [Ascii.openBracket], pos⟩ :: tokens ++ [closing]) (list elements)
  | dictionary {tokens : List Token} {entries : List (Tree × Tree)} {closing : Token} (pos : Int)
      (separated : Separated IsEntry tokens entries)
      (closes : closing.isMark Ascii.closeBrace) :
      Bracketed (⟨.bracket, [Ascii.openBrace], pos⟩ :: tokens ++ [closing]) (dictionary entries)
  | function {tokens : List Token} {body : Tree} {parameter : Token} (pos : Int)
      (isWord : parameter.kind = .word) (parsed : parse tokens = .ok body) :
      Bracketed (⟨.special, [Ascii.backslash], pos⟩ :: parameter :: tokens)
        (functionOf parameter.text body)

/-! ### Reading the forms -/

theorem parse_nil : parse [] = .ok empty := rfl

section Marks

variable {token : Token}

theorem isTerminator_of_isMark {mark : UInt8} (isMark : token.isMark mark)
    (isEnd : mark ∈ [Ascii.closeParen, Ascii.closeBracket, Ascii.closeBrace, Ascii.comma,
      Ascii.colon]) : token.isTerminator := by
  simp only [List.mem_cons, List.not_mem_nil, or_false] at isEnd
  rcases isEnd with rfl | rfl | rfl | rfl | rfl <;> simp [Token.isTerminator, isMark]

/-- A token is one mark only. -/
theorem isMark_eq_false {mark other : UInt8} (isMark : token.isMark mark) (ne : mark ≠ other) :
    token.isMark other = false := by
  simp only [Token.isMark, Bool.and_eq_true, beq_iff_eq] at isMark
  simp [Token.isMark, isMark.2, ne]

end Marks

section Loop

variable {before : List Tree} {outer : List Frame} {closing : Token}

/-- The pieces of a bracket are read up to the mark that closes it, if the bracket
takes one piece at each comma, the last piece at the closing mark, and nothing
from a closing mark right after a comma. -/
theorem leadsTo_separated {α : Type} {piece : Bool → List Token → α → Prop}
    {opening : List α → Opening} {node : List α → Tree}
    (step : ∀ {tokens item comma}, piece true tokens item → comma.isMark Ascii.comma → ∀ done,
      (inside (.bracket (opening done) before :: outer) []).LeadsTo (tokens ++ [comma])
        (inside (.bracket (opening (item :: done)) before :: outer) []))
    (final : ∀ {tokens item}, piece false tokens item → ∀ done,
      (inside (.bracket (opening done) before :: outer) []).LeadsTo (tokens ++ [closing])
        (inside outer (node (item :: done).reverse :: before)))
    (ended : ∀ done,
      (inside (.bracket (opening done) before :: outer) []).LeadsTo [closing]
        (inside outer (node done.reverse :: before)))
    {tokens : List Token} {items : List α} (separated : Separated piece tokens items)
    (done : List α) :
    (inside (.bracket (opening done) before :: outer) []).LeadsTo (tokens ++ [closing])
      (inside outer (node (done.reverse ++ items) :: before)) := by
  induction separated generalizing done with
  | @last tokens item piece =>
      rw [← List.reverse_cons]
      exact final piece done
  | @lastComma tokens item comma piece isComma =>
      rw [← List.reverse_cons]
      exact (step piece isComma done).append (ended (item :: done))
  | @cons tokens rest item items comma piece isComma later ih =>
      have first := step piece isComma done
      have others := ih (item :: done)
      rw [List.reverse_cons, List.append_assoc, List.singleton_append] at others
      rw [List.append_cons tokens comma rest, List.append_assoc]
      exact first.append others

/-- The elements of a list are read up to the bracket that closes it. -/
theorem leadsTo_elements (closes : closing.isMark Ascii.closeBracket) {tokens : List Token}
    {elements : List Tree} (separated : Separated IsElement tokens elements) :
    (inside (.bracket (.items []) before :: outer) []).LeadsTo (tokens ++ [closing])
      (inside outer (list elements :: before)) := by
  have terminates := isTerminator_of_isMark closes (by decide)
  refine leadsTo_separated ?_ ?_ ?_ separated []
  · intro tokens element comma piece isComma done
    refine leadsTo_goOn piece.parsed (isTerminator_of_isMark isComma (by decide)) ?_ before outer
    rw [Opening.close, closeList, isMark_eq_false isComma (by decide), if_neg Bool.false_ne_true]
  · intro tokens element piece done
    have kept : element.isEmptyExpression = false := by simpa using piece.kept
    refine leadsTo_complete piece.parsed terminates ?_ before outer
    rw [Opening.close, closeList, if_pos closes, kept, if_neg Bool.false_ne_true]
  · intro done
    refine leadsTo_complete parse_nil terminates ?_ before outer
    rw [Opening.close, closeList, if_pos closes]
    rfl

/-- A key and its colon lead to the value. -/
theorem leadsTo_colon {tokens : List Token} {key : Tree} (parsed : parse tokens = .ok key)
    {colon : Token} (isColon : colon.isMark Ascii.colon) (done : List (Tree × Tree)) :
    (inside (.bracket (.atKey done) before :: outer) []).LeadsTo (tokens ++ [colon])
      (inside (.bracket (.atValue done key.child) before :: outer) []) := by
  refine leadsTo_goOn parsed (isTerminator_of_isMark isColon (by decide)) ?_ before outer
  rw [Opening.close, closeKey, isMark_eq_false isColon (by decide), if_neg Bool.false_ne_true,
    isMark_eq_false isColon (by decide), if_neg Bool.false_ne_true, if_pos isColon]

theorem leadsTo_entry_comma {tokens : List Token} {entry : Tree × Tree}
    (piece : IsEntry true tokens entry) {comma : Token} (isComma : comma.isMark Ascii.comma)
    (done : List (Tree × Tree)) :
    (inside (.bracket (.atKey done) before :: outer) []).LeadsTo (tokens ++ [comma])
      (inside (.bracket (.atKey (entry :: done)) before :: outer) []) := by
  have terminates := isTerminator_of_isMark isComma (by decide)
  have noBrace : comma.isMark Ascii.closeBrace = false := isMark_eq_false isComma (by decide)
  cases piece with
  | @keyed keyTokens valueTokens _ _ colon parsedKey isColon parsedValue =>
      rw [List.append_cons keyTokens colon valueTokens, List.append_assoc]
      refine (leadsTo_colon parsedKey isColon done).append ?_
      refine leadsTo_goOn parsedValue terminates ?_ before outer
      rw [Opening.close, closeValue, noBrace, if_neg Bool.false_ne_true]
  | bare parsed kept =>
      refine leadsTo_goOn parsed terminates ?_ before outer
      rw [Opening.close, closeKey, noBrace, if_neg Bool.false_ne_true, if_pos isComma]

theorem leadsTo_entry_closeBrace {tokens : List Token} {entry : Tree × Tree}
    (piece : IsEntry false tokens entry) (closes : closing.isMark Ascii.closeBrace)
    (done : List (Tree × Tree)) :
    (inside (.bracket (.atKey done) before :: outer) []).LeadsTo (tokens ++ [closing])
      (inside outer (dictionary (entry :: done).reverse :: before)) := by
  have terminates := isTerminator_of_isMark closes (by decide)
  cases piece with
  | @keyed keyTokens valueTokens _ _ colon parsedKey isColon parsedValue =>
      rw [List.append_cons keyTokens colon valueTokens, List.append_assoc]
      refine (leadsTo_colon parsedKey isColon done).append ?_
      refine leadsTo_complete parsedValue terminates ?_ before outer
      rw [Opening.close, closeValue, if_pos closes]
  | @bare _ key parsed kept =>
      have kept : key.child.isNull = false := by simpa using kept
      refine leadsTo_complete parsed terminates ?_ before outer
      rw [Opening.close, closeKey, if_pos closes, kept, if_neg Bool.false_ne_true]

/-- The entries of a dictionary are read up to the brace that closes it. -/
theorem leadsTo_entries (closes : closing.isMark Ascii.closeBrace) {tokens : List Token}
    {entries : List (Tree × Tree)} (separated : Separated IsEntry tokens entries) :
    (inside (.bracket (.atKey []) before :: outer) []).LeadsTo (tokens ++ [closing])
      (inside outer (dictionary entries :: before)) := by
  refine leadsTo_separated ?_ ?_ ?_ separated []
  · intro tokens entry comma piece isComma done
    exact leadsTo_entry_comma piece isComma done
  · intro tokens entry piece done
    exact leadsTo_entry_closeBrace piece closes done
  · -- Right after a comma the key is empty, which is a null key.
    intro done
    have terminates := isTerminator_of_isMark closes (by decide)
    refine leadsTo_complete parse_nil terminates ?_ before outer
    rw [Opening.close, closeKey, if_pos closes]
    rfl

end Loop

/-- Tokens that lead to a single branch are the program of that branch. -/
theorem parse_of_leadsTo {tokens : List Token} {node : Tree}
    (leads : (inside [] []).LeadsTo tokens (inside [] [node])) :
    parse tokens = .ok (wrap node) := by
  have run := leads []
  rw [List.append_nil] at run
  rw [parse, readExpression, read_eq_run, run]
  rfl

/-- A function literal takes the whole program behind its parameter as its body. -/
theorem parse_function {tokens : List Token} {body : Tree} {parameter : Token}
    (isWord : parameter.kind = .word) (parsed : parse tokens = .ok body) (pos : Int) :
    parse (⟨.special, [Ascii.backslash], pos⟩ :: parameter :: tokens) =
      .ok (wrap (functionOf parameter.text body)) := by
  obtain ⟨frames, branches, settled, leads⟩ := exists_leadsTo_of_parse parsed
  have isBranch : parameter.isTerminator = false := by
    simp [Token.isTerminator, Token.isMark, Token.isPunctuation, isWord]
  have name : parameterName parameter = parameter.text := by rw [parameterName, isWord]
  have start : (inside [] []).LeadsTo (⟨.special, [Ascii.backslash], pos⟩ :: parameter :: tokens)
      (inside (frames ++ [.body parameter.text []]) branches) := by
    refine .cons rfl (.cons ?_ (leads _))
    rw [Reading.next, if_neg (by simp [isBranch]), name]
  have run := start []
  rw [List.append_nil, Reading.run, Reading.finish, settled, complete] at run
  rw [parse, readExpression, read_eq_run, run]
  rfl

/-- The forms are read part by part: each part gives the tree that it gives on its
own, and at other offsets the same up to offsets. -/
theorem parse_bracketed {tokens : List Token} {node : Tree} (bracketed : Bracketed tokens node) :
    parse tokens = .ok (wrap node) ∧
      ∀ others : List Token, others.map Token.lexeme = tokens.map Token.lexeme →
        ∃ tree, parse others = .ok tree ∧ tree.unplaced = (wrap node).unplaced := by
  have parsed : parse tokens = .ok (wrap node) := by
    cases bracketed with
    | group pos parsed closes =>
        have terminates := isTerminator_of_isMark closes (by decide)
        refine parse_of_leadsTo (.cons rfl (leadsTo_complete parsed terminates ?_ [] []))
        rw [Opening.close, closeGroup, if_pos closes]
    | list pos separated closes =>
        exact parse_of_leadsTo (.cons rfl (leadsTo_elements closes separated))
    | dictionary pos separated closes =>
        exact parse_of_leadsTo (.cons rfl (leadsTo_entries closes separated))
    | function pos isWord parsed => exact parse_function isWord parsed pos
  exact ⟨parsed, fun others spelled => exists_parse_of_map_lexeme spelled parsed⟩

/-- The value of the first entry in `nestedTokens`: a function literal around a
list with an operator that stands for itself. -/
def nestedValue : List Token :=
  [⟨.special, [Ascii.backslash], 4⟩, ⟨.word, utf8 "x", 5⟩, ⟨.bracket, [Ascii.openBracket], 7⟩,
    ⟨.word, utf8 "x", 8⟩, ⟨.special, [Ascii.comma], 9⟩, ⟨.bracket, [Ascii.openParen], 11⟩,
    ⟨.operator, utf8 "+", 12⟩, ⟨.bracket, [Ascii.closeParen], 13⟩,
    ⟨.bracket, [Ascii.closeBracket], 14⟩]

/-- A dictionary of two entries, the second without a value and with a comma
behind it: `{f: \x [x, (+)], y,}`. -/
def nestedTokens : List Token :=
  ⟨.bracket, [Ascii.openBrace], 0⟩ :: ([⟨.word, utf8 "f", 1⟩] ++ ⟨.special, [Ascii.colon], 2⟩ ::
    nestedValue ++ ⟨.special, [Ascii.comma], 15⟩ ::
      ([⟨.word, utf8 "y", 17⟩] ++ [⟨.special, [Ascii.comma], 18⟩])) ++
    [⟨.bracket, [Ascii.closeBrace], 19⟩]

/-- The node of `nestedTokens`. -/
def nestedNode : Tree :=
  dictionary [(word (utf8 "f"), wrap (functionOf (utf8 "x") (wrap (list [wrap (word (utf8 "x")),
      wrap (wrap (operator (utf8 "+") 12))])))),
    (word (utf8 "y"), wrap (word (utf8 "y")))]

theorem parse_bracketed_nested :
    Bracketed nestedTokens nestedNode ∧ parse nestedTokens = .ok (wrap nestedNode) ∧
      ∀ others : List Token, others.map Token.lexeme = nestedTokens.map Token.lexeme →
        ∃ tree, parse others = .ok tree ∧ tree.unplaced = (wrap nestedNode).unplaced := by
  have firstKey : parse [⟨.word, utf8 "f", 1⟩] = .ok (wrap (word (utf8 "f"))) := rfl
  have first : IsEntry true ([⟨.word, utf8 "f", 1⟩] ++ ⟨.special, [Ascii.colon], 2⟩ :: nestedValue)
      (word (utf8 "f"), wrap (functionOf (utf8 "x") (wrap (list [wrap (word (utf8 "x")),
        wrap (wrap (operator (utf8 "+") 12))])))) :=
    .keyed firstKey rfl rfl
  have secondKey : parse [⟨.word, utf8 "y", 17⟩] = .ok (wrap (word (utf8 "y"))) := rfl
  have second : IsEntry true [⟨.word, utf8 "y", 17⟩] (word (utf8 "y"), wrap (word (utf8 "y"))) :=
    .bare secondKey (.inl rfl)
  have bracketed : Bracketed nestedTokens nestedNode :=
    .dictionary 0 (.cons first rfl (.lastComma second rfl)) rfl
  exact ⟨bracketed, parse_bracketed bracketed⟩

end Juxta.Tree
