/-
# The shape of parsed trees

Not every tree comes from tokens. In a parsed tree the operator of a combination
is known, an expression of no tokens holds the null literal, and brackets and
function literals hold expressions only. The body of a function literal reaches to
the end of the expression around it, so nothing stands behind a function literal:
it is the last branch whenever branches are joined, and what ends in it is never
the left part of a join.
-/

import Juxta.Proofs.Tree.Built
import Juxta.Proofs.Tree.Parts

namespace Juxta.Tree

/-- Whether a node is an expression. -/
def isExpression : Tree → Bool
  | expression _ _ => true
  | _ => false

/-- Whether a node is a function literal, or a join whose right part ends in one. -/
def endsInFunction : Tree → Bool
  | function _ _ => true
  | combination _ _ right => right.endsInFunction
  | application _ argument => argument.endsInFunction
  | _ => false

/-- The shape of a node in a parsed tree. The left operand of a combination and the
function of an application are no function literals and do not end in one. -/
def IsShaped : Tree → Prop
  | expression child isEmpty => isEmpty = true → child = null
  | combination text left _ => Operator.isKnown text = true ∧ left.endsInFunction = false
  | application callee _ => callee.endsInFunction = false
  | function _ body => body.isExpression = true
  | list elements => ∀ element ∈ elements, element.isExpression = true
  | dictionary entries => ∀ entry ∈ entries, entry.2.isExpression = true
  | _ => True

theorem endsInFunction_of_isExpression {tree : Tree} (whole : tree.isExpression) :
    tree.endsInFunction = false := by
  cases tree with
  | expression child isEmpty => rfl
  | _ => cases whole

/-- The constructions of the reader keep the shape. Only the last branch of an
expression may end in a function literal. -/
theorem places_isShaped :
    Places (fun isLast tree =>
        Everywhere IsShaped tree ∧ (isLast = false → tree.endsInFunction = false))
      (fun tree => Everywhere IsShaped tree ∧ tree.isExpression = true) where
  last fits := ⟨fits.1, fun _ => fits.2 rfl⟩
  application function fits :=
    ⟨everywhere_application.mpr ⟨function.2 rfl, function.1, fits.1⟩, fits.2⟩
  combination known left fits :=
    ⟨everywhere_combination.mpr ⟨⟨known, left.2 rfl⟩, left.1, fits.1⟩, fits.2⟩
  empty := by
    have child : Everywhere IsShaped null := (everywhere_of_parts_eq_nil rfl).mpr trivial
    exact ⟨everywhere_expression.mpr ⟨fun _ => rfl, child⟩, rfl⟩
  wrap fits := by
    refine ⟨everywhere_expression.mpr ⟨?_, fits.1⟩, rfl⟩
    exact fun isEmpty => Bool.noConfusion isEmpty
  functionOf whole := by
    refine ⟨everywhere_function.mpr ⟨whole.2, whole.1⟩, ?_⟩
    exact fun notLast => Bool.noConfusion notLast
  group whole := ⟨whole.1, fun _ => endsInFunction_of_isExpression whole.2⟩
  list each := by
    refine ⟨everywhere_list.mpr ⟨?_, ?_⟩, fun _ => rfl⟩
    · exact fun element mem => (each element mem).2
    · exact fun element mem => (each element mem).1
  dictionary each := by
    refine ⟨everywhere_dictionary.mpr ⟨fun entry mem => (each entry mem).2.2, ?_⟩, fun _ => rfl⟩
    intro entry mem
    obtain ⟨⟨key, whole, same⟩, value⟩ := each entry mem
    rw [same]
    exact ⟨whole.1.child, value.1⟩

/-- A leaf is shaped, and it ends in no function literal. -/
theorem isShaped_leaf {token : Token} {tree : Tree} (leaf : token.leaf? = some tree) :
    Everywhere IsShaped tree ∧ tree.endsInFunction = false := by
  rw [Token.leaf?] at leaf
  split at leaf <;> cases leaf <;> exact ⟨(everywhere_of_parts_eq_nil rfl).mpr trivial, rfl⟩

/-- The tree of any tokens is an expression, and every node in it is shaped. -/
theorem parse_isShaped {tokens : List Token} {tree : Tree} (parsed : parse tokens = .ok tree) :
    tree.isExpression = true ∧ ∀ node, Within node tree → node.IsShaped := by
  have leaves : ∀ token ∈ tokens, ∀ leaf, token.leaf? = some leaf →
      Everywhere IsShaped leaf ∧ (false = false → leaf.endsInFunction = false) :=
    fun token _ leaf same => ⟨(isShaped_leaf same).1, fun _ => (isShaped_leaf same).2⟩
  have whole := whole_parse places_isShaped leaves parsed
  exact ⟨whole.2, whole.1⟩

/-- The tokens of `f + g \_ {a: ()}`, written by hand with another mark for the
backslash and a bracket in front of it that opens nothing. -/
def handMadeTokens : List Token :=
  [⟨.word, utf8 "f", 5⟩, ⟨.operator, utf8 "+", 5⟩, ⟨.word, utf8 "g", 5⟩, ⟨.bracket, utf8 "|", 5⟩,
    ⟨.special, utf8 "?", -7⟩, ⟨.null, utf8 "_", 0⟩, ⟨.bracket, [Ascii.openBrace], 0⟩,
    ⟨.word, utf8 "a", 0⟩, ⟨.special, [Ascii.colon], 0⟩, ⟨.bracket, [Ascii.openParen], 0⟩,
    ⟨.bracket, [Ascii.closeParen], 0⟩, ⟨.bracket, [Ascii.closeBrace], 0⟩]

theorem parse_isShaped_handMade :
    let body := wrap (dictionary [(word (utf8 "a"), wrap empty)])
    let tree := wrap (combination (utf8 "+") (word (utf8 "f"))
      (application (word (utf8 "g")) (function none body)))
    parse handMadeTokens = .ok tree ∧ tree.isExpression = true ∧
      ∀ node, Within node tree → node.IsShaped := by
  intro body tree
  have parsed : parse handMadeTokens = .ok tree := rfl
  exact ⟨parsed, parse_isShaped parsed⟩

end Juxta.Tree
