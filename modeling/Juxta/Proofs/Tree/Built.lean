/-
# What holds of every tree that is read

The reader builds its trees from the leaves that single tokens stand for, by a
few constructions: the passes join branches, brackets collect expressions, and a
function literal takes its body. A property of trees that the constructions keep
and that holds of the leaves holds of the tree of every token sequence. It may
depend on the place: a function literal is always the last branch of its
expression, and what a bracket collects are whole expressions.
-/

import Juxta.Program
import Juxta.Proofs.Tree.Pass
import Juxta.Proofs.Tree.Reading

namespace Juxta

/-- The leaf that a token stands for, unless it is a bracket or a mark. -/
def Token.leaf? (token : Token) : Option Tree :=
  match token.kind with
  | .word => some (.word token.text)
  | .operator => some (.operator token.text token.pos)
  | .number value => some (.number value)
  | .string value => some (.string token.text value)
  | .null => some .null
  | _ => none

namespace Tree

/-- The constructions of the reader keep a property of trees. -/
structure KeptByReader (holds : Tree → Prop) : Prop where
  empty : holds empty
  wrap : ∀ {tree}, holds tree → holds (wrap tree)
  child : ∀ {tree}, holds tree → holds tree.child
  application : ∀ {callee argument}, holds callee → holds argument →
    holds (application callee argument)
  combination : ∀ {text left right}, Operator.isKnown text → holds left → holds right →
    holds (combination text left right)
  functionOf : ∀ {name body}, holds body → holds (functionOf name body)
  list : ∀ {elements}, (∀ element ∈ elements, holds element) → holds (list elements)
  dictionary : ∀ {entries : List (Tree × Tree)},
    (∀ entry ∈ entries, holds entry.1 ∧ holds entry.2) → holds (dictionary entries)

/-- Properties of what the reader builds, by the place where it stands: of a `branch`,
which may be the last one of its expression or have others behind it, and of a
`whole` expression. -/
structure Places (branch : (isLast : Bool) → Tree → Prop) (whole : Tree → Prop) : Prop where
  last : ∀ {tree}, branch false tree → branch true tree
  application : ∀ {isLast callee argument}, branch false callee → branch isLast argument →
    branch isLast (application callee argument)
  combination : ∀ {isLast text left right}, Operator.isKnown text → branch false left →
    branch isLast right → branch isLast (combination text left right)
  empty : whole empty
  wrap : ∀ {tree}, branch true tree → whole (wrap tree)
  functionOf : ∀ {name body}, whole body → branch true (functionOf name body)
  group : ∀ {tree}, whole tree → branch false tree
  list : ∀ {elements}, (∀ element ∈ elements, whole element) → branch false (list elements)
  dictionary : ∀ {entries : List (Tree × Tree)},
    (∀ entry ∈ entries, (∃ key, whole key ∧ entry.1 = key.child) ∧ whole entry.2) →
      branch false (dictionary entries)

/-- A property that the constructions keep holds in every place. -/
theorem KeptByReader.places {holds : Tree → Prop} (kept : KeptByReader holds) :
    Places (fun _ => holds) holds where
  last fits := fits
  application := kept.application
  combination := kept.combination
  empty := kept.empty
  wrap := kept.wrap
  functionOf := kept.functionOf
  group fits := fits
  list := kept.list
  dictionary each := by
    apply kept.dictionary
    intro entry mem
    obtain ⟨⟨key, fits, same⟩, value⟩ := each entry mem
    rw [same]
    exact ⟨kept.child fits, value⟩

variable {branch : Bool → Tree → Prop} {whole : Tree → Prop}

/-- Branches that stand below one another, the last one of the expression on top. -/
def Stacked (branch : Bool → Tree → Prop) (isLast : Bool) : List Tree → Prop
  | [] => True
  | top :: below => branch isLast top ∧ ∀ tree ∈ below, branch false tree

theorem stacked_false_iff {branches : List Tree} :
    Stacked branch false branches ↔ ∀ tree ∈ branches, branch false tree := by
  cases branches with
  | nil => simp [Stacked]
  | cons top below => rw [Stacked, List.forall_mem_cons]

theorem Stacked.last (places : Places branch whole) {branches : List Tree}
    (stacked : Stacked branch false branches) : Stacked branch true branches := by
  cases branches with
  | nil => trivial
  | cons top below => exact ⟨places.last stacked.1, stacked.2⟩

/-- The branches of a pass have the properties of their places. -/
def Progress.Holds (branch : Bool → Tree → Prop) (isLast : Bool) : Progress → Prop
  | settled done => Stacked branch isLast done
  | waiting text _ left done => Operator.isKnown text ∧ Stacked branch false (left :: done)

theorem Progress.holds_next (places : Places branch whole) {tier : List Operator}
    (mem : tier ∈ Operator.tiers) {progress : Progress} (before : progress.Holds branch false)
    {isLast : Bool} {tree : Tree} (fits : branch isLast tree) :
    (progress.next tier tree).Holds branch isLast := by
  cases progress with
  | waiting text pos left done =>
      obtain ⟨known, first, below⟩ := before
      exact ⟨places.combination known first fits, below⟩
  | settled done =>
      cases done with
      | nil => exact ⟨fits, fun _ inside => absurd inside List.not_mem_nil⟩
      | cons last done =>
          have pushed : Stacked branch isLast (tree :: last :: done) :=
            ⟨fits, stacked_false_iff.mp before⟩
          cases kind : tree.isOperator with
          | true =>
              obtain ⟨text, pos, rfl⟩ := exists_of_isOperator kind
              rw [next_operator]
              split
              next inside => exact ⟨List.any_eq_true.mpr ⟨tier, mem, inside⟩, before⟩
              next => exact pushed
          | false =>
              rw [next_operand tier kind]
              split
              · exact pushed
              · exact ⟨places.application before.1 fits, before.2⟩

theorem Progress.holds_foldl (places : Places branch whole) {tier : List Operator}
    (mem : tier ∈ Operator.tiers) {branches : List Tree}
    (fit : ∀ tree ∈ branches, branch false tree) {progress : Progress}
    (before : progress.Holds branch false) :
    (branches.foldl (next tier) progress).Holds branch false := by
  induction branches generalizing progress with
  | nil => exact before
  | cons tree branches ih =>
      rw [List.forall_mem_cons] at fit
      exact ih fit.2 (holds_next places mem before fit.1)

/-- A pass keeps the properties, where the last branch may differ from the others. -/
theorem holds_pass (places : Places branch whole) {tier : List Operator}
    (mem : tier ∈ Operator.tiers) {atEnd : Bool} {branches joined : List Tree}
    (fit : Stacked branch true branches.reverse)
    (passed : pass tier atEnd [] branches = .ok joined) : Stacked branch true joined.reverse := by
  rw [pass_eq_finish_foldl] at passed
  have run : (branches.foldl (Progress.next tier) (.settled [])).Holds branch true := by
    rcases List.eq_nil_or_concat branches with rfl | ⟨front, last, rfl⟩
    · trivial
    · rw [List.concat_eq_append, List.reverse_concat] at fit
      rw [List.concat_eq_append, List.foldl_append]
      apply Progress.holds_next places mem _ fit.1
      have others : ∀ tree ∈ front, branch false tree := fun tree inside =>
        fit.2 tree (by simp [inside])
      exact Progress.holds_foldl places mem others trivial
  cases progress : branches.foldl (Progress.next tier) (.settled []) with
  | waiting text pos left done =>
      rw [progress] at passed
      cases passed
  | settled done =>
      rw [progress] at passed run
      cases passed
      rwa [List.reverse_reverse]

theorem holds_resolve (places : Places branch whole) {atEnd : Bool} {branches : List Tree}
    {tree : Tree} (fit : Stacked branch true branches)
    (resolved : resolve atEnd branches.reverse = .ok tree) : whole tree := by
  rw [← List.reverse_reverse branches] at fit
  unfold resolve at resolved
  split at resolved
  next => cases resolved
  next =>
    cases resolved
    exact places.empty
  next passed =>
    cases resolved
    have kept := kept_by_passes (fun tier mem _ _ => holds_pass places mem) fit passed
    exact places.wrap kept.1
  next => cases resolved

/-- All keys and values are built from whole expressions. -/
def EntriesHold (whole : Tree → Prop) (entries : List (Tree × Tree)) : Prop :=
  ∀ entry ∈ entries, (∃ key, whole key ∧ entry.1 = key.child) ∧ whole entry.2

theorem EntriesHold.reverse {entries : List (Tree × Tree)} (hold : EntriesHold whole entries) :
    EntriesHold whole entries.reverse :=
  fun entry inside => hold entry (List.mem_reverse.mp inside)

/-- All that an opening has collected is whole. -/
def Opening.Holds (whole : Tree → Prop) : Opening → Prop
  | group _ => True
  | items elements => ∀ element ∈ elements, whole element
  | atKey entries => EntriesHold whole entries
  | atValue entries key => EntriesHold whole entries ∧ ∃ tree, whole tree ∧ key = tree.child

/-- All that a frame has collected has the properties of its place. -/
def Frame.Holds (branch : Bool → Tree → Prop) (whole : Tree → Prop) : Frame → Prop
  | bracket opening before => opening.Holds whole ∧ ∀ tree ∈ before, branch false tree
  | body _ before => ∀ tree ∈ before, branch false tree

theorem holds_settle (places : Places branch whole) {atEnd : Bool} {frames : List Frame}
    {branches : List Tree} {tree : Tree} {enclosing? : Option Enclosing}
    (framesFit : ∀ frame ∈ frames, frame.Holds branch whole) (fit : Stacked branch true branches)
    (settled : settle atEnd frames branches = .ok (tree, enclosing?)) :
    whole tree ∧ ∀ enclosing ∈ enclosing?, enclosing.opening.Holds whole ∧
      (∀ tree ∈ enclosing.before, branch false tree) ∧
        ∀ frame ∈ enclosing.frames, frame.Holds branch whole := by
  induction frames generalizing branches with
  | nil =>
      rw [settle] at settled
      split at settled
      · cases settled
      next resolved =>
        cases settled
        exact ⟨holds_resolve places fit resolved, by simp⟩
  | cons frame frames ih =>
      rw [List.forall_mem_cons] at framesFit
      obtain ⟨first, later⟩ := framesFit
      rw [settle] at settled
      split at settled
      · cases settled
      next resolved =>
        have inner := holds_resolve places fit resolved
        cases frame with
        | bracket opening before =>
            cases settled
            refine ⟨inner, fun enclosing same => ?_⟩
            cases same
            exact ⟨first.1, first.2, later⟩
        | body parameter before =>
            have joined : Stacked branch true (functionOf parameter _ :: before) :=
              ⟨places.functionOf inner, first⟩
            exact ih later joined settled

/-- What a terminator makes of an opening has the properties of its place. -/
def Closing.Holds (branch : Bool → Tree → Prop) (whole : Tree → Prop) : Closing → Prop
  | complete tree => branch false tree
  | goOn opening => opening.Holds whole
  | reject _ => True

theorem holds_close (places : Places branch whole) {opening : Opening} {tree : Tree}
    (before : opening.Holds whole) (fits : whole tree) (token : Token) :
    (opening.close tree token).Holds branch whole := by
  cases opening with
  | group pos =>
      simp only [Opening.close, closeGroup]
      split
      · exact places.group fits
      · trivial
  | items elements =>
      simp only [Opening.close, closeList]
      have all : ∀ element ∈ tree :: elements, whole element :=
        List.forall_mem_cons.mpr ⟨fits, before⟩
      split
      · apply places.list
        split
        · exact fun element inside => before element (List.mem_reverse.mp inside)
        · exact fun element inside => all element (List.mem_reverse.mp inside)
      · exact all
  | atKey entries =>
      simp only [Opening.close, closeKey]
      have all : EntriesHold whole ((tree.child, tree) :: entries) :=
        List.forall_mem_cons.mpr ⟨⟨⟨tree, fits, rfl⟩, fits⟩, before⟩
      split
      · apply places.dictionary
        split
        · exact EntriesHold.reverse before
        · exact all.reverse
      · split
        · exact all
        · split
          · exact ⟨before, tree, fits, rfl⟩
          · trivial
  | atValue entries key =>
      simp only [Opening.close, closeValue]
      have all : EntriesHold whole ((key, tree) :: entries) :=
        List.forall_mem_cons.mpr ⟨⟨before.2, fits⟩, before.1⟩
      split
      · exact places.dictionary all.reverse
      · exact all

namespace Reading

/-- All that was read has the properties of its place. -/
def Holds (branch : Bool → Tree → Prop) (whole : Tree → Prop) : Reading → Prop
  | inside frames branches | afterBackslash _ frames branches =>
      (∀ frame ∈ frames, frame.Holds branch whole) ∧ ∀ tree ∈ branches, branch false tree

/-- What a token makes of a reading has the properties of its place. -/
def Response.Holds (branch : Bool → Tree → Prop) (whole : Tree → Prop) : Response → Prop
  | goOn reading => reading.Holds branch whole
  | stop tree => whole tree
  | fail _ => True

theorem holds_atTerminator (places : Places branch whole) {frames : List Frame}
    {branches : List Tree} (before : (inside frames branches).Holds branch whole) (token : Token) :
    (atTerminator frames branches token).Holds branch whole := by
  have fit := (stacked_false_iff.mpr before.2).last places
  unfold atTerminator
  split
  next => trivial
  next settled => exact (holds_settle places before.1 fit settled).1
  next settled =>
    obtain ⟨tree, around⟩ := holds_settle places before.1 fit settled
    obtain ⟨opening, outer, framesFit⟩ := around _ rfl
    have closed := holds_close places opening tree token
    split
    next same =>
      rw [same] at closed
      exact ⟨framesFit, List.forall_mem_cons.mpr ⟨closed, outer⟩⟩
    next same =>
      rw [same] at closed
      exact ⟨List.forall_mem_cons.mpr ⟨⟨closed, outer⟩, framesFit⟩, by simp⟩
    next => trivial

theorem holds_atBranch {frames : List Frame} {branches : List Tree}
    (before : (inside frames branches).Holds branch whole) {token : Token}
    (leaf : ∀ tree, token.leaf? = some tree → branch false tree) :
    (atBranch frames branches token).Holds branch whole := by
  unfold atBranch
  unfold Token.leaf? at leaf
  split
  next =>
    split
    next opening same =>
      have fresh : opening.Holds whole := by
        unfold Opening.ofBracket? at same
        split at same
        · cases same
          trivial
        · split at same
          · cases same
            simp [Opening.Holds]
          · split at same <;> cases same
            simp [Opening.Holds, EntriesHold]
      exact ⟨List.forall_mem_cons.mpr ⟨⟨fresh, before.2⟩, before.1⟩, by simp⟩
    next => exact before
  next => exact before
  next kind =>
    rw [kind] at leaf
    exact ⟨before.1, List.forall_mem_cons.mpr ⟨leaf _ rfl, before.2⟩⟩
  next kind =>
    rw [kind] at leaf
    exact ⟨before.1, List.forall_mem_cons.mpr ⟨leaf _ rfl, before.2⟩⟩
  next kind =>
    rw [kind] at leaf
    exact ⟨before.1, List.forall_mem_cons.mpr ⟨leaf _ rfl, before.2⟩⟩
  next kind =>
    rw [kind] at leaf
    exact ⟨before.1, List.forall_mem_cons.mpr ⟨leaf _ rfl, before.2⟩⟩
  next kind =>
    rw [kind] at leaf
    exact ⟨before.1, List.forall_mem_cons.mpr ⟨leaf _ rfl, before.2⟩⟩
  next => trivial

theorem holds_next (places : Places branch whole) {reading : Reading}
    (before : reading.Holds branch whole) {token : Token}
    (leaf : ∀ tree, token.leaf? = some tree → branch false tree) :
    (reading.next token).Holds branch whole := by
  cases reading with
  | inside frames branches =>
      rw [next]
      split
      · exact holds_atTerminator places before token
      · exact holds_atBranch before leaf
  | afterBackslash pos frames branches =>
      rw [next]
      split
      · trivial
      · exact ⟨List.forall_mem_cons.mpr ⟨before.2, before.1⟩, by simp⟩

theorem holds_finish (places : Places branch whole) {reading : Reading} {tree : Tree}
    (before : reading.Holds branch whole) (finished : reading.finish = .ok tree) : whole tree := by
  obtain ⟨frames, branches, rfl, settled⟩ := settle_of_finish_eq_ok finished
  have fit := (stacked_false_iff.mpr before.2).last places
  exact (holds_settle places before.1 fit settled).1

/-- The tree of a whole reading is a whole expression. -/
theorem holds_run (places : Places branch whole) {tokens rest : List Token} {reading : Reading}
    {tree : Tree} (before : reading.Holds branch whole)
    (leaves : ∀ token ∈ tokens, ∀ tree, token.leaf? = some tree → branch false tree)
    (finished : reading.run tokens = .ok (tree, rest)) : whole tree := by
  induction tokens generalizing reading with
  | nil => exact holds_finish places before (run_nil_eq_ok finished).1
  | cons token tokens ih =>
      have step := holds_next places before (leaves token (by simp))
      rcases run_cons_eq_ok finished with ⟨later, response, finished⟩ | ⟨response, -⟩
      · rw [response] at step
        exact ih step (fun other inside => leaves other (by simp [inside])) finished
      · rw [response] at step
        exact step

end Reading

/-- Every parsed tree is a whole expression, if the leaves may stand anywhere. -/
theorem whole_parse (places : Places branch whole) {tokens : List Token} {tree : Tree}
    (leaves : ∀ token ∈ tokens, ∀ tree, token.leaf? = some tree → branch false tree)
    (parsed : parse tokens = .ok tree) : whole tree := by
  have start : (Reading.inside [] []).Holds branch whole := ⟨by simp, by simp⟩
  exact Reading.holds_run places start leaves (run_of_parse parsed)

/-- A property that the reader keeps holds of every parsed tree, if it holds of
the leaves. -/
theorem holds_parse {holds : Tree → Prop} (kept : KeptByReader holds) {tokens : List Token}
    {tree : Tree} (leaves : ∀ token ∈ tokens, ∀ tree, token.leaf? = some tree → holds tree)
    (parsed : parse tokens = .ok tree) : holds tree :=
  whole_parse kept.places leaves parsed

end Tree

/-- A property that the reader keeps holds of the tree of every source text whose
tokens have leaves with it. -/
theorem Program.holds_read {holds : Tree → Prop} (kept : Tree.KeptByReader holds)
    {source : Bytes} {tree : Tree}
    (leaves : ∀ tokens, Token.scan source = .ok tokens →
      ∀ token ∈ tokens, ∀ leaf, token.leaf? = some leaf → holds leaf)
    (parsed : Program.read source = .ok tree) : holds tree := by
  rw [Program.read] at parsed
  cases scanned : Token.scan source with
  | error error => simp [scanned] at parsed
  | ok tokens =>
      cases result : Tree.parse tokens with
      | error error => simp [scanned, result] at parsed
      | ok tree' =>
          obtain rfl : tree' = tree := by simpa [scanned, result] using parsed
          exact Tree.holds_parse kept (leaves tokens scanned) result

end Juxta
