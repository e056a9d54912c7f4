/-
# Well-formed trees

A tree is well formed when each of its combinations has a known operator and no
node is missing, in the bodies of its functions too. Every tree that is read is
well formed, whatever sequence of operators it was read from, and so are the
parts of a well-formed tree: the function that a program makes has a well-formed
body.
-/

import Juxta.Proofs.Tree.Built
import Juxta.Proofs.Tree.Matching
import Juxta.Proofs.Tree.Parts

namespace Juxta

/-- A text denotes an operator exactly when it stands in one of the tiers. -/
theorem Operator.isSome_ofText? (text : Bytes) : (ofText? text).isSome = isKnown text := by
  rw [Bool.eq_iff_iff, ofText?, List.find?_isSome, ← List.any_eq_true, all, List.any_flatten]
  rfl

namespace Tree

/-- A node that is there, with a known operator if it is a combination. -/
def IsKnown : Tree → Prop
  | combination text _ _ => Operator.isKnown text = true
  | hole => False
  | _ => True

/-- Every operator of a tree is known and no node is missing. -/
def WellFormed (tree : Tree) : Prop := Everywhere IsKnown tree

theorem keptByReader_wellFormed : KeptByReader WellFormed where
  empty := everywhere_expression.mpr ⟨trivial, (everywhere_of_parts_eq_nil rfl).mpr trivial⟩
  wrap inner := everywhere_expression.mpr ⟨trivial, inner⟩
  child := Everywhere.child
  application callee argument := everywhere_application.mpr ⟨trivial, callee, argument⟩
  combination known left right := everywhere_combination.mpr ⟨known, left, right⟩
  functionOf body := everywhere_function.mpr ⟨trivial, body⟩
  list each := everywhere_list.mpr ⟨trivial, each⟩
  dictionary each := everywhere_dictionary.mpr ⟨trivial, each⟩

theorem wellFormed_leaf {token : Token} {tree : Tree} (leaf : token.leaf? = some tree) :
    tree.WellFormed := by
  rw [Token.leaf?] at leaf
  split at leaf <;> cases leaf <;> exact (everywhere_of_parts_eq_nil rfl).mpr trivial

/-- Evaluation of a well-formed tree meets well-formed trees only, so it need not
permit the failures of the others. -/
theorem hereditary_wellFormed (permits : Failure → Prop) :
    Hereditary (fun _ => True) permits WellFormed where
  expression wellFormed := (everywhere_expression.mp wellFormed).2
  combination wellFormed := (everywhere_combination.mp wellFormed).2
  application wellFormed := (everywhere_application.mp wellFormed).2
  function wellFormed := (everywhere_function.mp wellFormed).2
  list wellFormed := (everywhere_list.mp wellFormed).2
  dictionary wellFormed := (everywhere_dictionary.mp wellFormed).2
  number _ := trivial
  unknownOperator wellFormed unknown := by
    have known : Operator.isKnown _ = true := (everywhere_combination.mp wellFormed).1
    rw [← Operator.isSome_ofText?, unknown] at known
    cases known
  hole wellFormed := (wellFormed hole .here).elim

end Tree

end Juxta
