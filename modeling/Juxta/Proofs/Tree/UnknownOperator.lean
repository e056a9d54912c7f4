/-
# Operators that no tier knows

An unknown operator is rejected, unless a known operator beside it takes it for an
operand or it is an expression by itself. In these cases it is not lost: whatever
operator is read stays in the tree, as a leaf or as the operator of a combination,
and a combination only has a known one.
-/

import Juxta.Proofs.Tree.Blame
import Juxta.Proofs.Tree.Shape

namespace Juxta.Tree

/-! ### Operators stay in the tree -/

/-- A tree has a given operator, as a leaf or between two operands. -/
def Mentions (text : Bytes) (pos : Int) (tree : Tree) : Prop :=
  Within (operator text pos) tree ∨ ∃ left right, Within (combination text left right) tree

variable {text : Bytes} {pos : Int}

theorem mentions_operator (text : Bytes) (pos : Int) : (operator text pos).Mentions text pos :=
  .inl .here

theorem Mentions.under {part tree : Tree} (mentions : part.Mentions text pos)
    (mem : part ∈ tree.parts) : tree.Mentions text pos := by
  rcases mentions with leaf | ⟨left, right, joined⟩
  · exact .inl (.under rfl mem leaf)
  · exact .inr ⟨left, right, .under rfl mem joined⟩

/-- A leaf has no other operator than itself. -/
theorem Mentions.eq_operator {leaf : Tree} (mentions : leaf.Mentions text pos)
    (single : leaf.parts = []) : leaf = operator text pos := by
  rcases mentions with within | ⟨left, right, within⟩
  · cases within with
    | here => rfl
    | under _ mem => exact absurd mem (by simp [single])
  · cases within with
    | here => cases single
    | under _ mem => exact absurd mem (by simp [single])

/-- Grouping loses no operator. -/
theorem Grouping.mentions_tree {grouping : Grouping} {branch : Tree}
    (mem : branch ∈ grouping.branches) (mentions : branch.Mentions text pos) :
    grouping.tree.Mentions text pos := by
  induction grouping with
  | branch tree =>
      obtain rfl := List.mem_singleton.mp mem
      exact mentions
  | application callee argument ihCallee ihArgument =>
      rcases List.mem_append.mp mem with mem | mem
      · exact (ihCallee mem).under (by simp [tree, parts])
      · exact (ihArgument mem).under (by simp [tree, parts])
  | combination symbol offset left right ihLeft ihRight =>
      rcases List.mem_append.mp mem with mem | mem
      · exact (ihLeft mem).under (by simp [tree, parts])
      · rcases List.mem_cons.mp mem with rfl | mem
        · obtain ⟨rfl, rfl⟩ : symbol = text ∧ offset = pos := by
            simpa using mentions.eq_operator rfl
          exact .inr ⟨left.tree, right.tree, .here⟩
        · exact (ihRight mem).under (by simp [tree, parts])

/-- Some tree of several has a given operator. -/
def AnyMentions (text : Bytes) (pos : Int) (trees : List Tree) : Prop :=
  ∃ tree ∈ trees, tree.Mentions text pos

theorem AnyMentions.mono {trees others : List Tree} (any : AnyMentions text pos trees)
    (subset : trees ⊆ others) : AnyMentions text pos others := by
  obtain ⟨tree, mem, mentions⟩ := any
  exact ⟨tree, subset mem, mentions⟩

theorem anyMentions_append {trees others : List Tree} :
    AnyMentions text pos (trees ++ others) ↔
      AnyMentions text pos trees ∨ AnyMentions text pos others := by
  simp only [AnyMentions, List.mem_append, or_and_right, exists_or]

/-- An expression is not empty and has a given operator. -/
def WholeMentions (text : Bytes) (pos : Int) (tree : Tree) : Prop :=
  ∃ inner : Tree, tree = wrap inner ∧ inner.Mentions text pos

namespace WholeMentions

variable {tree : Tree}

theorem mentions (whole : tree.WholeMentions text pos) : tree.Mentions text pos := by
  obtain ⟨inner, rfl, mentions⟩ := whole
  exact mentions.under List.mem_cons_self

theorem child (whole : tree.WholeMentions text pos) : tree.child.Mentions text pos := by
  obtain ⟨inner, rfl, mentions⟩ := whole
  exact mentions

theorem isEmptyExpression (whole : tree.WholeMentions text pos) :
    tree.isEmptyExpression = false := by
  obtain ⟨inner, rfl, -⟩ := whole
  rfl

theorem isNull_child (whole : tree.WholeMentions text pos) : tree.child.isNull = false := by
  have mentions := whole.child
  cases inner : tree.child with
  | null =>
      rw [inner] at mentions
      cases mentions.eq_operator rfl
  | _ => rfl

end WholeMentions

/-- A resolved expression has the operators of its branches below it. -/
theorem mentions_of_resolve {atEnd : Bool} {branches : List Tree} {tree : Tree}
    (any : AnyMentions text pos branches) (resolved : resolve atEnd branches = .ok tree) :
    tree.WholeMentions text pos := by
  obtain ⟨branch, mem, mentions⟩ := any
  obtain ⟨grouping, rfl, rfl⟩ :=
    exists_grouping_of_resolve resolved (List.ne_nil_of_mem mem)
  exact ⟨grouping.tree, rfl, Grouping.mentions_tree mem mentions⟩

/-- The trees that an opening has collected. -/
def Opening.trees : Opening → List Tree
  | group _ => []
  | items elements => elements
  | atKey entries => (dictionary entries).parts
  | atValue entries key => key :: (dictionary entries).parts

/-- The trees that a frame holds. -/
def Frame.trees : Frame → List Tree
  | bracket opening before => opening.trees ++ before
  | body _ before => before

/-- The trees that stand around a completed expression. -/
def Enclosing.trees (enclosing : Enclosing) : List Tree :=
  enclosing.opening.trees ++ enclosing.before ++ enclosing.frames.flatMap Frame.trees

/-- The trees that a terminator leaves. -/
def Closing.trees : Closing → List Tree
  | complete branch => [branch]
  | goOn opening => opening.trees
  | reject _ => []

/-- Completing an expression loses no operator. -/
theorem mentions_of_settle {atEnd : Bool} {frames : List Frame} {branches : List Tree} {tree : Tree}
    {enclosing? : Option Enclosing}
    (any : AnyMentions text pos (branches ++ frames.flatMap Frame.trees))
    (settled : settle atEnd frames branches = .ok (tree, enclosing?)) :
    tree.WholeMentions text pos ∨
      ∃ enclosing, enclosing? = some enclosing ∧ AnyMentions text pos enclosing.trees := by
  induction frames generalizing branches with
  | nil =>
      rw [settle] at settled
      split at settled
      · cases settled
      next resolved =>
        cases settled
        exact .inl (mentions_of_resolve (any.mono (by simp)) resolved)
  | cons frame frames ih =>
      rw [settle] at settled
      split at settled
      · cases settled
      next inner resolved =>
        cases frame with
        | bracket opening before =>
            cases settled
            rcases anyMentions_append.mp any with any | any
            · exact .inl (mentions_of_resolve (any.mono (by simp)) resolved)
            · refine .inr ⟨_, rfl, any.mono ?_⟩
              simp [Enclosing.trees, Frame.trees]
        | body parameter before =>
            apply ih _ settled
            rcases anyMentions_append.mp any with any | any
            · have body := (mentions_of_resolve (any.mono (by simp)) resolved).mentions
              exact ⟨functionOf parameter inner, by simp, body.under List.mem_cons_self⟩
            · exact any.mono (by simp [Frame.trees])

theorem anyMentions_singleton {tree : Tree} :
    AnyMentions text pos [tree] ↔ tree.Mentions text pos := by
  simp [AnyMentions]

/-- A node has the operators of the nodes below it. -/
theorem AnyMentions.under {trees : List Tree} {tree : Tree} (any : AnyMentions text pos trees)
    (subset : trees ⊆ tree.parts) : tree.Mentions text pos := by
  obtain ⟨part, mem, mentions⟩ := any
  exact mentions.under (subset mem)

theorem parts_subset_reverse (entries : List (Tree × Tree)) :
    (dictionary entries).parts ⊆ (dictionary entries.reverse).parts := by
  intro part mem
  rw [mem_parts_dictionary] at mem ⊢
  simpa using mem

/-- A terminator loses no operator of the expression before it or of the opening around
that. -/
theorem mentions_of_close {opening : Opening} {tree : Tree} {token : Token}
    (any : tree.WholeMentions text pos ∨ AnyMentions text pos opening.trees)
    (accepted : ∀ error, opening.close tree token ≠ .reject error) :
    AnyMentions text pos (opening.close tree token).trees := by
  cases opening with
  | group opened =>
      rcases any with whole | ⟨_, mem, _⟩
      · simp only [Opening.close, closeGroup] at accepted ⊢
        split
        · exact anyMentions_singleton.mpr whole.mentions
        next other => exact absurd (if_neg other) (accepted _)
      · cases mem
  | items elements =>
      have all : AnyMentions text pos (tree :: elements) := by
        rcases any with whole | any
        · exact ⟨tree, List.mem_cons_self, whole.mentions⟩
        · exact any.mono (List.subset_cons_self _ _)
      simp only [Opening.close, closeList]
      split
      · apply anyMentions_singleton.mpr
        split
        next isEmpty =>
          -- An expression that has an operator is kept.
          rcases any with whole | any
          · rw [whole.isEmptyExpression] at isEmpty
            cases isEmpty
          · exact any.under (by simp [parts, Opening.trees])
        next => exact all.under (by simp [parts])
      · exact all
  | atKey entries =>
      have all : AnyMentions text pos (dictionary ((tree.child, tree) :: entries)).parts := by
        rcases any with whole | any
        · exact ⟨tree, by simp [parts], whole.mentions⟩
        · exact any.mono (by simp [parts, Opening.trees])
      simp only [Opening.close, closeKey] at accepted ⊢
      split
      · apply anyMentions_singleton.mpr
        split
        next isNull =>
          rcases any with whole | any
          · rw [whole.isNull_child] at isNull
            cases isNull
          · exact any.under (parts_subset_reverse entries)
        next => exact all.under (parts_subset_reverse _)
      next notBrace =>
        rw [if_neg notBrace] at accepted
        split
        · exact all
        next notComma =>
          rw [if_neg notComma] at accepted
          split
          · rcases any with whole | any
            · exact ⟨tree.child, List.mem_cons_self, whole.child⟩
            · exact any.mono (List.subset_cons_self _ _)
          next notColon => exact absurd (if_neg notColon) (accepted _)
  | atValue entries key =>
      have all : AnyMentions text pos (dictionary ((key, tree) :: entries)).parts := by
        rcases any with whole | any
        · exact ⟨tree, by simp [parts], whole.mentions⟩
        · apply any.mono
          simp only [Opening.trees, parts, List.flatMap_cons]
          exact List.cons_subset_cons key (List.subset_cons_self _ _)
      simp only [Opening.close, closeValue]
      split
      · exact anyMentions_singleton.mpr (all.under (parts_subset_reverse _))
      · exact all

/-- After a terminator the operators stand in what it leaves or around that. -/
theorem mentions_of_terminator {frames : List Frame} {branches : List Tree} {tree : Tree}
    {enclosing : Enclosing} {token : Token} {closing : Closing}
    (any : AnyMentions text pos (branches ++ frames.flatMap Frame.trees))
    (settled : settle false frames branches = .ok (tree, some enclosing))
    (closed : enclosing.opening.close tree token = closing)
    (accepted : ∀ error, closing ≠ .reject error) :
    AnyMentions text pos
      (closing.trees ++ (enclosing.before ++ enclosing.frames.flatMap Frame.trees)) := by
  subst closed
  rw [anyMentions_append]
  rcases mentions_of_settle any settled with inner | ⟨around, same, any⟩
  · exact .inl (mentions_of_close (.inl inner) accepted)
  · cases same
    rw [Enclosing.trees, List.append_assoc, anyMentions_append] at any
    rcases any with any | any
    · exact .inl (mentions_of_close (.inr any) accepted)
    · exact .inr any

namespace Reading

/-- The trees that a reading holds. -/
def trees : Reading → List Tree
  | inside frames branches | afterBackslash _ frames branches =>
      branches ++ frames.flatMap Frame.trees

/-- No token makes a reading lose an operator. -/
theorem mentions_of_advances {token : Token} {reading later : Reading}
    (any : AnyMentions text pos reading.trees) (advances : Advances token reading later) :
    AnyMentions text pos later.trees := by
  cases advances with
  | operand kind => exact any.mono (List.subset_cons_self _ _)
  | operator kind => exact any.mono (List.subset_cons_self _ _)
  | skip => exact any
  | opens opening =>
      apply any.mono
      simp [trees, Frame.trees]
  | backslash kind => exact any
  | parameter name =>
      apply any.mono
      simp [trees, Frame.trees]
  | completes settled kind terminates closed =>
      exact mentions_of_terminator any settled closed (by simp)
  | separates settled opening terminates closed =>
      apply (mentions_of_terminator any settled closed (by simp)).mono
      simp [trees, Frame.trees, Closing.trees]

/-- A reading that ends has all its operators in its tree. -/
theorem mentions_of_run {reading : Reading} {tokens rest : List Token} {tree : Tree}
    (any : AnyMentions text pos reading.trees)
    (finished : reading.run tokens = .ok (tree, rest)) : tree.Mentions text pos := by
  have whole {atEnd : Bool} {frames : List Frame} {branches : List Tree} {tree : Tree}
      (any : AnyMentions text pos (inside frames branches).trees)
      (settled : settle atEnd frames branches = .ok (tree, none)) : tree.Mentions text pos := by
    rcases mentions_of_settle any settled with whole | ⟨_, none, _⟩
    · exact whole.mentions
    · cases none
  induction tokens generalizing reading with
  | nil =>
      obtain ⟨frames, branches, rfl, settled⟩ := settle_of_finish_eq_ok (run_nil_eq_ok finished).1
      exact whole any settled
  | cons token tokens ih =>
      rcases run_cons_eq_ok finished with ⟨later, response, finished⟩ | ⟨response, -⟩
      · exact ih (mentions_of_advances any (advances_of_next response)) finished
      · obtain ⟨frames, branches, rfl, settled⟩ := settle_of_next_eq_stop response
        exact whole any settled

end Reading

/-! ### Unknown operators in a source text -/

/-- Completing an expression that ends with an unknown operator fails, unless the operator
stands alone or behind a known one. -/
theorem settle_unknown (unknown : Operator.isKnown text = false) (pos : Int)
    {branches : List Tree} (others : branches ≠ [])
    (before : ∀ last ∈ branches.reverse.getLast?, last.isKnownOperator = false)
    (atEnd : Bool) (frames : List Frame) :
    ∃ error, settle atEnd frames (operator text pos :: branches) = .error error := by
  have isolated : Isolated text pos (operator text pos :: branches).reverse :=
    ⟨branches.reverse, [], by simp, before, by simp, .inl (by simpa using others)⟩
  obtain ⟨error, rejected⟩ := resolve_of_isolated unknown isolated atEnd
  exact ⟨error, by rw [settle, rejected]⟩

namespace Reading

/-- Behind an unknown operator nothing but a terminator or a known operator can be read. -/
theorem stuck_of_unknown (unknown : Operator.isKnown text = false) {frames : List Frame}
    {branches : List Tree} {token : Token} {later : Reading}
    (before : ∀ last ∈ branches.reverse.getLast?, last.isKnownOperator = false)
    (genuine : token.IsGenuine) (inner : token.isTerminator = false)
    (after : token.kind = .operator → Operator.isKnown token.text = false)
    (advances : Advances token (inside frames (.operator text pos :: branches)) later) :
    later.Stuck := by
  have hopeless {next : Tree} (other : next.isKnownOperator = false) :
      Hopeless (next :: .operator text pos :: branches).reverse := by
    simpa using hopeless_of_unknown unknown pos before other
  have beforeOperand : HopelessBeforeOperand (Tree.operator text pos :: branches).reverse := by
    intro operand kind
    rw [← List.reverse_cons]
    exact hopeless (isKnownOperator_of_operand kind)
  cases advances with
  | operand kind => exact .inl (hopeless (isKnownOperator_of_operand kind))
  | operator kind => exact .inl (hopeless (after kind))
  | skip kind inner idle => exact absurd idle (genuine.ofBracket?_ne_none kind inner)
  | opens opening => exact .inr ⟨_, List.mem_cons_self, beforeOperand⟩
  | backslash kind => exact .inl beforeOperand
  | completes settled kind terminates =>
      rw [inner] at terminates
      cases terminates
  | separates settled opening terminates =>
      rw [inner] at terminates
      cases terminates

/-- An unknown operator is only read on from if it stands alone or beside a known one. -/
theorem run_unknown (unknown : Operator.isKnown text = false) {frames : List Frame}
    {branches : List Tree} {rest : List Token} {tree : Tree}
    (before : ∀ last ∈ branches.reverse.getLast?, last.isKnownOperator = false)
    (genuine : ∀ token ∈ rest, token.IsGenuine)
    (finished : (inside frames (.operator text pos :: branches)).run rest = .ok (tree, [])) :
    (branches = [] ∧ ∀ next ∈ rest.head?, next.isTerminator) ∨
      ∃ next ∈ rest.head?, next.kind = .operator ∧ Operator.isKnown next.text := by
  cases rest with
  | nil =>
      left
      refine ⟨?_, by simp⟩
      by_contra others
      obtain ⟨error, failed⟩ := settle_unknown unknown pos others before true frames
      rw [run, finish, failed] at finished
      cases finished
  | cons next rest =>
      cases inner : next.isTerminator with
      | true =>
          left
          refine ⟨?_, by simpa using inner⟩
          by_contra others
          obtain ⟨error, failed⟩ := settle_unknown unknown pos others before false frames
          rw [run, Reading.next, if_pos inner, atTerminator, failed] at finished
          cases finished
      | false =>
          right
          by_contra none
          have after : next.kind = .operator → Operator.isKnown next.text = false := by
            intro kind
            rw [← Bool.not_eq_true]
            exact fun known => none ⟨next, rfl, kind, known⟩
          rcases run_cons_eq_ok finished with ⟨later, response, finished⟩ | ⟨-, same⟩
          · have stuck := stuck_of_unknown unknown before (genuine next List.mem_cons_self) inner
              after (advances_of_next response)
            obtain ⟨error, failed⟩ := run_of_stuck rest stuck
            rw [failed] at finished
            cases finished
          · cases same

/-- An operator token becomes a branch. -/
theorem next_operator {token : Token} (kind : token.kind = .operator) (frames : List Frame)
    (branches : List Tree) :
    (inside frames branches).next token =
      .goOn (inside frames (.operator token.text token.pos :: branches)) := by
  have inner : token.isTerminator = false := by
    simp [Token.isTerminator, Token.isMark, Token.isPunctuation, kind]
  simp [next, inner, atBranch, kind]

end Reading

/-- The last branch is only a known operator if the last token is. -/
theorem exists_known_of_adjoins {past : List Token} {branches : List Tree}
    (adjoins : Adjoins past branches) {last : Tree} (ends : last ∈ branches.reverse.getLast?)
    (known : last.isKnownOperator) :
    ∃ previous ∈ past.getLast?, previous.kind = .operator ∧ Operator.isKnown previous.text := by
  cases last with
  | operator symbol offset =>
      obtain ⟨front, same⟩ := List.getLast?_eq_some_iff.mp ends
      have suffix := adjoins [⟨.operator, symbol, offset⟩] (by simp) ⟨front, same.symm⟩
      obtain ⟨earlier, rfl⟩ := suffix
      exact ⟨_, List.getLast?_concat, rfl, known⟩
  | _ => cases known

/-- A reading to the end passes through a reading after any of its tokens. -/
theorem Reached.exists_of_run {past before rest : List Token} {reading : Reading} {tree : Tree}
    (reached : Reached past reading)
    (finished : reading.run (before ++ rest) = .ok (tree, [])) :
    ∃ later, Reached (past ++ before) later ∧ later.run rest = .ok (tree, []) := by
  induction before generalizing past reading with
  | nil => exact ⟨reading, by simpa using reached, finished⟩
  | cons token before ih =>
      rw [List.append_cons]
      rcases Reading.run_cons_eq_ok finished with ⟨later, response, finished⟩ | ⟨-, same⟩
      · exact ih (reached.extend response) finished
      · cases same

/-- The operators of an accepted combination are known, so an unknown one stays a leaf. -/
theorem within_of_mentions {tokens : List Token} {tree : Tree} (parsed : parse tokens = .ok tree)
    (unknown : Operator.isKnown text = false) (mentions : tree.Mentions text pos) :
    Within (operator text pos) tree := by
  rcases mentions with leaf | ⟨left, right, joined⟩
  · exact leaf
  · have shaped := (whole_parse places_isShaped
      (fun _ _ _ leaf => ⟨(isShaped_leaf leaf).1, fun _ => (isShaped_leaf leaf).2⟩) parsed).1
    have known := (shaped _ joined).1
    rw [unknown] at known
    cases known

/-- A source text with an unknown operator, which is not the parameter of a function literal,
is rejected, unless the operator is an expression by itself or a known operator stands
directly beside it. Also where it is accepted it stays an operator of the tree. -/
theorem parse_unknown_operator {source : Bytes} {before after : List Token} {token : Token}
    (scanned : Token.scan source = .ok (before ++ token :: after))
    (kind : token.kind = .operator) (unknown : Operator.isKnown token.text = false)
    (free : ∀ previous ∈ before.getLast?, previous.isMark Ascii.backslash = false) :
    (∃ error, parse (before ++ token :: after) = .error error) ∨
      ∃ tree, parse (before ++ token :: after) = .ok tree ∧
        Within (operator token.text token.pos) tree ∧
        ((∃ frames, Reached before (.inside frames [])) ∧
            (∀ next ∈ after.head?, next.isTerminator) ∨
          (∃ previous ∈ before.getLast?,
            previous.kind = .operator ∧ Operator.isKnown previous.text) ∨
          ∃ next ∈ after.head?, next.kind = .operator ∧ Operator.isKnown next.text) := by
  have genuine := Token.holdsOfScanned_isGenuine.scan scanned
  obtain ⟨genuineBefore, genuineAfter⟩ := List.forall_mem_append.mp genuine
  cases parsed : parse (before ++ token :: after) with
  | error error => exact .inl ⟨error, rfl⟩
  | ok tree =>
      refine .inr ⟨tree, rfl, ?_⟩
      obtain ⟨reading, reached, finished⟩ := Reached.start.exists_of_run (run_of_parse parsed)
      rw [List.nil_append] at reached
      have tracked := reached.tracked genuineBefore
      cases reading with
      | afterBackslash offset frames branches =>
          obtain ⟨-, -, backslash, last, -, mark⟩ := tracked
          rw [free backslash last] at mark
          cases mark
      | inside frames branches =>
          rw [Reading.run, Reading.next_operator kind] at finished
          have mentions : tree.Mentions token.text token.pos :=
            Reading.mentions_of_run ⟨_, List.mem_cons_self, mentions_operator _ _⟩ finished
          refine ⟨within_of_mentions parsed unknown mentions, ?_⟩
          by_cases known : ∃ last ∈ branches.reverse.getLast?, last.isKnownOperator
          · obtain ⟨last, ends, known⟩ := known
            exact .inr (.inl (exists_known_of_adjoins tracked.2.2 ends known))
          · have others : ∀ last ∈ branches.reverse.getLast?, last.isKnownOperator = false := by
              simpa using known
            have genuineRest : ∀ next ∈ after, next.IsGenuine := fun next mem =>
              genuineAfter next (by simp [mem])
            rcases Reading.run_unknown unknown others genuineRest finished with ⟨rfl, ends⟩ | next
            · exact .inl ⟨⟨frames, reached⟩, ends⟩
            · exact .inr (.inr next)

/-- The operator between a word and a bracket makes the list a wrong one. -/
theorem parse_unknown_operator_element :
    let before : List Token := [⟨.bracket, utf8 "[", 0⟩, ⟨.word, utf8 "a", 1⟩]
    let token : Token := ⟨.operator, utf8 "~", 3⟩
    let after : List Token := [⟨.bracket, utf8 "(", 5⟩, ⟨.word, utf8 "b", 6⟩,
      ⟨.bracket, utf8 ")", 7⟩, ⟨.operator, utf8 "*", 9⟩, ⟨.word, utf8 "c", 11⟩,
      ⟨.bracket, utf8 "]", 12⟩]
    Token.scan (utf8 "[a ~ (b) * c]") = .ok (before ++ token :: after) ∧
      token.kind = .operator ∧ Operator.isKnown token.text = false ∧
      (∀ previous ∈ before.getLast?, previous.isMark Ascii.backslash = false) ∧
      ∃ error, parse (before ++ token :: after) = .error error := by
  intro before token after
  have scanned : Token.scan (utf8 "[a ~ (b) * c]") = .ok (before ++ token :: after) := by rfl
  have free : ∀ previous ∈ before.getLast?, previous.isMark Ascii.backslash = false := by decide
  refine ⟨scanned, rfl, rfl, free, ?_⟩
  rcases parse_unknown_operator scanned rfl rfl free with
    rejected | ⟨_, _, _, ⟨_, alone⟩ | ⟨_, last, kind, _⟩ | ⟨_, first, kind, _⟩⟩
  · exact rejected
  · exact absurd (alone _ rfl) (by decide)
  · cases last
    cases kind
  · cases first
    cases kind

/-- The expression `a ~ * b` is accepted, since `*` takes the unknown operator for its left
operand. -/
theorem parse_accepts_unknown :
    let tokens : List Token := [⟨.word, utf8 "a", 0⟩, ⟨.operator, utf8 "~", 2⟩,
      ⟨.operator, utf8 "*", 4⟩, ⟨.word, utf8 "b", 6⟩]
    Token.scan (utf8 "a ~ * b") = .ok tokens ∧ Operator.isKnown (utf8 "~") = false ∧
      parse tokens = .ok (wrap (application (word (utf8 "a"))
        (combination (utf8 "*") (operator (utf8 "~") 2) (word (utf8 "b"))))) :=
  ⟨rfl, rfl, rfl⟩

end Juxta.Tree
