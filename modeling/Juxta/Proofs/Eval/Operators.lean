/-
# Operators respect likeness

Alike operands are refused alike or give alike values. Operators that run no programs
are compared by themselves; the map calls a function on each of its items in turn, so
it is compared through a relation between runs. While it runs, the stage may change at
which values are alike, and a likeness that lasts keeps what was found before.
-/

import Juxta.Proofs.Eval.Related
import Juxta.Proofs.Value.Alike

namespace Juxta

open Run (Agree Staged)

variable {numbers : Fraction → Prop}

namespace Value.Likeness

variable {alike : Value → Value → Prop} {a a' b b' : Value}

theorem agree_refuse (likeness : Likeness numbers alike) (operator : Operator)
    (left : alike a a') (right : alike b b') :
    Agree EvalError.IsOrdinary alike (operator.refuse a b) (operator.refuse a' b') := by
  rw [Operator.refuse, Operator.refuse, likeness.kind_eq left, likeness.kind_eq right]
  exact .error ⟨nofun, nofun⟩

theorem agree_select (likeness : Likeness numbers alike) (left : alike a a')
    (selector : Selector) :
    Agree EvalError.IsOrdinary alike (a.select selector) (a'.select selector) := by
  cases likeness.layer left with
  | string bytes =>
      cases selector with
      | index position =>
          refine .ok ?_
          rw [byteAt]
          split
          · exact likeness.ofLayer .null
          · split
            · exact likeness.ofLayer (.string _)
            · exact likeness.ofLayer .null
      | key name => exact .error ⟨nofun, nofun⟩
  | list items =>
      cases selector with
      | index position => exact .ok (likeness.itemAt items position)
      | key name => exact .error ⟨nofun, nofun⟩
  | dictionary entries =>
      cases selector with
      | index position => exact .ok (likeness.getD_null (entries.get? _))
      | key name => exact .ok (likeness.getD_null (entries.get? name))
  | _ => exact .error ⟨nofun, nofun⟩

theorem agree_access (likeness : Likeness numbers alike) (left : alike a a')
    (right : alike b b') : Agree EvalError.IsOrdinary alike (a.access b) (a'.access b') := by
  rw [access, access, likeness.selector?_eq right]
  cases b'.selector? with
  | some selector => exact likeness.agree_select left selector
  | none =>
      rw [likeness.kind_eq left, likeness.kind_eq right]
      exact .error ⟨nofun, nofun⟩

theorem isOrdinary_of_count {value : Value} {operator : Operator} {error : EvalError}
    (failed : value.count operator = .error error) : error.IsOrdinary := by
  rw [count.eq_def] at failed
  split at failed
  · split at failed
    · cases failed
    · cases failed
      exact ⟨nofun, nofun⟩
  · cases failed
    exact ⟨nofun, nofun⟩

theorem agree_counted (likeness : Likeness numbers alike) (operator : Operator)
    (change : Bytes → Nat → Bytes) (left : alike a a') (right : alike b b') :
    Agree EvalError.IsOrdinary alike (operator.counted change a b)
      (operator.counted change a' b') := by
  have refused := likeness.agree_refuse operator left right
  cases likeness.layer left with
  | string bytes =>
      rw [Operator.counted, Operator.counted, likeness.count_eq right]
      cases counting : b'.count operator with
      | ok count => exact .ok (likeness.ofLayer (.string _))
      | error error => exact .error (isOrdinary_of_count counting)
  | _ => exact refused

theorem agree_bitwise (likeness : Likeness numbers alike) (operator : Operator)
    (join : UInt8 → UInt8 → UInt8) (left : alike a a') (right : alike b b') :
    Agree EvalError.IsOrdinary alike (operator.bitwise join a b) (operator.bitwise join a' b') := by
  have refused := likeness.agree_refuse operator left right
  cases likeness.layer left with
  | string bytes =>
      cases likeness.layer right with
      | string bytes' =>
          rw [Operator.bitwise]
          split
          · exact .ok (likeness.ofLayer (.string _))
          · exact .error ⟨nofun, nofun⟩
      | _ => exact refused
  | _ => exact refused

theorem agree_numeric (likeness : Likeness numbers alike) (operator : Operator)
    (operation : Fraction.Operation) (left : alike a a') (right : alike b b') :
    Agree EvalError.IsOrdinary alike (operator.numeric operation a b)
      (operator.numeric operation a' b') := by
  have refused := likeness.agree_refuse operator left right
  cases likeness.layer left with
  | number sort =>
      cases likeness.layer right with
      | number sort' => exact .ok (likeness.ofLayer (.number (likeness.operate _ sort sort')))
      | _ => exact refused
  | _ => exact refused

theorem agree_sizeLess (likeness : Likeness numbers alike) (operator : Operator)
    (left : alike a a') (right : alike b b') :
    Agree EvalError.IsOrdinary alike (operator.sizeLess a b) (operator.sizeLess a' b') := by
  have refused := likeness.agree_refuse operator left right
  cases likeness.layer right with
  | @number value sort =>
      have sizes := likeness.size?_eq left
      cases size : a'.size? with
      | some count =>
          simp only [Operator.sizeLess, sizes, size]
          have difference := likeness.operate .subtract (likeness.ofInt count) sort
          exact .ok (likeness.ofLayer (.number difference))
      | none =>
          simp only [Operator.sizeLess, sizes, size]
          exact refused
  | _ => exact refused

end Value.Likeness

variable {ω σ τ : Type} [Preorder ω] {relation : Staged ω σ τ}
  {alike : ω → Value → Value → Prop}

/-- A likeness at each stage, where values that are alike stay alike. -/
structure Value.LastingLikeness (numbers : Fraction → Prop) (alike : ω → Value → Value → Prop) :
    Prop where
  likeness : ∀ stage, Likeness numbers (alike stage)
  lasting : Staged.Lasting alike

/-- Calls that answer alike functions and arguments alike, from a stage on. -/
def CallsAlikeFrom (relation : Staged ω σ τ) (alike : ω → Value → Value → Prop) (start : ω)
    (call : Closure Value → Value → Run σ Value)
    (call' : Closure Value → Value → Run τ Value) : Prop :=
  ∀ stage, start ≤ stage → ∀ function function' argument argument',
    alike stage (.closure function) (.closure function') → alike stage argument argument' →
    relation.relates stage alike (call function argument) (call' function' argument')

namespace Value.LastingLikeness

variable {start stage : ω} {a a' b b' : Value} {call : Closure Value → Value → Run σ Value}
  {call' : Closure Value → Value → Run τ Value}

theorem dicts (likeness : LastingLikeness numbers alike) :
    Staged.Lasting fun stage => Dict.Alike (alike stage) := by
  intro stage later le first second related
  exact related.imp fun _ _ entries => ⟨entries.1, likeness.lasting le entries.2⟩

/-- A map calls its function on items that are alike. -/
theorem relates_map (lasting : LastingLikeness numbers alike)
    (calls : CallsAlikeFrom relation alike start call call') (reached : start ≤ stage)
    (left : alike stage a a') (right : alike stage b b') :
    relation.relates stage alike (Operator.map.apply call a b)
      (Operator.map.apply call' a' b') := by
  have likeness := lasting.likeness stage
  have refused : relation.relates stage alike (Run.ofEval (Operator.map.refuse a b))
      (Run.ofEval (Operator.map.refuse a' b')) :=
    relation.ofEval (likeness.agree_refuse .map left right)
  cases likeness.layer right with
  | @closure function function' functions =>
      have mapped := likeness.mapped? left
      unfold Operator.apply
      generalize a.mapped? = found, a'.mapped? = found' at mapped
      cases mapped with
      | some items =>
          refine relation.map ?_ fun later _ _ results =>
            (lasting.likeness later).ofLayer (.list results)
          -- From here on the function stays alike, whatever the calls lead to.
          refine relation.mapM lasting.lasting lasting.lasting ?_ le_rfl items
          intro later le item item' same
          exact calls later (reached.trans le) function function' item item'
            (lasting.lasting le functions) same
      | none => exact refused
  | _ => exact refused

/-- Operators answer alike operands alike, if calls do. -/
theorem relates_apply (lasting : LastingLikeness numbers alike)
    (calls : CallsAlikeFrom relation alike start call call') (operator : Operator)
    (reached : start ≤ stage) (left : alike stage a a') (right : alike stage b b') :
    relation.relates stage alike (operator.apply call a b) (operator.apply call' a' b') := by
  have likeness := lasting.likeness stage
  have refused (operator : Operator) : relation.relates stage alike
      (Run.ofEval (operator.refuse a b)) (Run.ofEval (operator.refuse a' b')) :=
    relation.ofEval (likeness.agree_refuse operator left right)
  cases operator with
  | access => exact relation.ofEval (likeness.agree_access left right)
  | map => exact lasting.relates_map calls reached left right
  | trimLeft | trimRight | shiftLeft | shiftRight =>
      exact relation.ofEval (likeness.agree_counted _ _ left right)
  | sizeMinus => exact relation.ofEval (likeness.agree_sizeLess _ left right)
  | appendLists =>
      have refusal := refused .appendLists
      cases likeness.layer left with
      | list items =>
          cases likeness.layer right with
          | list items' =>
              exact relation.ofPure (likeness.ofLayer (.list (List.rel_append items items')))
          | _ => exact refusal
      | _ => exact refusal
  | appendStrings =>
      have refusal := refused .appendStrings
      cases likeness.layer left with
      | string bytes =>
          cases likeness.layer right with
          | string bytes' => exact relation.ofPure (likeness.ofLayer (.string _))
          | _ => exact refusal
      | _ => exact refusal
  | merge =>
      have refusal := refused .merge
      cases likeness.layer left with
      | dictionary entries =>
          cases likeness.layer right with
          | dictionary entries' =>
              exact relation.ofPure (likeness.ofLayer (.dictionary (entries.merge entries')))
          | _ => exact refusal
      | _ => exact refusal
  | equal =>
      rw [Operator.apply, Operator.apply, likeness.isEqual_eq left right]
      exact relation.ofPure (likeness.ofBool _)
  | sameKind =>
      rw [Operator.apply, Operator.apply, likeness.kind_eq left, likeness.kind_eq right]
      exact relation.ofPure (likeness.ofBool _)
  | bitAnd | bitOr | bitXor => exact relation.ofEval (likeness.agree_bitwise _ _ left right)
  | multiply | divide | add | subtract | atMost | atLeast | less | greater =>
      exact relation.ofEval (likeness.agree_numeric _ _ left right)

end Value.LastingLikeness

section Steady

open Run (Relation)

variable {relation : Relation σ τ} {alike : Value → Value → Prop}
  {call : Closure Value → Value → Run σ Value} {call' : Closure Value → Value → Run τ Value}

/-- Calls that answer alike functions and arguments alike. -/
def CallsAlike (relation : Relation σ τ) (alike : Value → Value → Prop)
    (call : Closure Value → Value → Run σ Value)
    (call' : Closure Value → Value → Run τ Value) : Prop :=
  ∀ function function' argument argument', alike (.closure function) (.closure function') →
    alike argument argument' →
    relation.relates alike (call function argument) (call' function' argument')

theorem CallsAlike.steady (calls : CallsAlike relation alike call call') :
    CallsAlikeFrom relation.steady (fun _ => alike) .now call call' :=
  fun _ _ => calls

theorem Value.Likeness.steady (likeness : Likeness numbers alike) :
    LastingLikeness numbers fun _ : Run.Always => alike :=
  ⟨fun _ => likeness, fun _ _ _ same => same⟩

end Steady

end Juxta
