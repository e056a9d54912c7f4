/-
# Redundant parentheses

A tree with added parentheses does what the tree does without them, in every
environment and at every depth of calls. Evaluation looks at the kind of a node in a
few places only, and there the parentheses are either seen through or not added. The
two runs make functions with different bodies, which may be called much later or be
handed to the host. So a host has to treat functions that differ in parentheses
alike, as every host does that sees dumps only.
-/

import Juxta.Proofs.Program.Scoping
import Juxta.Proofs.Value.Parenthesized

namespace Juxta

open Run (Agree)

variable {σ : Type} {host : Host σ}

/-- A host that sees dumps only does not see parentheses. -/
theorem Host.SeesDumpsOnly.respects_parenthesized (sees : host.SeesDumpsOnly) :
    host.Respects Value.Parenthesized :=
  sees.respects .same Value.Parenthesized.dump_eq

/-- Calls of functions that differ in added parentheses, at every depth. -/
theorem Closure.callsAlike_parenthesized (respects : host.Respects Value.Parenthesized)
    (environment : Environment) (depth : Nat) :
    CallsAlike (Run.relatedBy Host.WatchedAlike) Value.Parenthesized
      (Closure.call environment host.logging depth)
      (Closure.call environment host.logging depth) := by
  induction depth with
  | zero =>
      intro function function' argument argument' functions arguments
      rcases functions.closure_cases with ⟨name, rfl, rfl⟩ | ⟨_, _, _, _, _, rfl, rfl, _⟩
      · exact respects.related_logging Value.Parenthesized.dump_eq name arguments
      · exact Run.related_throw .tooDeep
  | succ depth ih =>
      intro function function' argument argument' functions arguments
      rcases functions.closure_cases with
        ⟨name, rfl, rfl⟩ | ⟨scope, scope', parameter, body, body', rfl, rfl, scopes, bodies⟩
      · exact respects.related_logging Value.Parenthesized.dump_eq name arguments
      · rw [Closure.call, Closure.call]
        have inside := (scopes.bind parameter arguments).scopesMatch environment
        exact Tree.relates_evalWith_of_matching Value.likeness_parenthesized
          (Tree.matching_parenthesized fun _ => trivial) ih inside bodies

namespace Tree

/-- A tree and the tree with added parentheses, run side by side. -/
theorem related_eval_of_parenthesized (respects : host.Respects Value.Parenthesized)
    (environment : Environment) (depth : Nat) (scope : Scope Value) {tree tree' : Tree}
    (added : tree.Parenthesized tree') :
    (Run.relatedBy Host.WatchedAlike).relates Value.Parenthesized
      (tree.eval environment host.logging depth scope)
      (tree'.eval environment host.logging depth scope) :=
  relates_evalWith_of_matching Value.likeness_parenthesized
    (matching_parenthesized fun _ => trivial)
    (Closure.callsAlike_parenthesized respects environment depth)
    ((Scope.Parenthesized.refl scope).scopesMatch environment) added

/-- A tree and the tree with added parentheses, with a host that treats functions
which differ in parentheses alike: whatever the depth at which they are cut off, both
are cut off, both fail with the same failure, or they give values with the same dump
and the same printed form. The host is left in the same state, and the logs of its
calls, which are logs of the very runs, show the same functions in the same order
with arguments of the same dumps. -/
theorem eval_of_parenthesized (depth : Nat) (environment : Environment) (host : Host σ)
    (respects : host.Respects Value.Parenthesized) (scope : Scope Value) (tree tree' : Tree)
    (added : tree.Parenthesized tree') (state : σ) :
    let plain := (tree.eval environment host depth scope).start state
    let plain' := (tree'.eval environment host depth scope).start state
    let logged := (tree.eval environment host.logging depth scope).start (state, [])
    let logged' := (tree'.eval environment host.logging depth scope).start (state, [])
    Agree (fun _ => True) (fun value value' =>
        value.dump = value'.dump ∧ value.format = value'.format) plain.1 plain'.1 ∧
      plain.2 = plain'.2 ∧
      (logged.1, logged.2.1) = plain ∧ (logged'.1, logged'.2.1) = plain' ∧
      List.Forall₂ Host.Call.LooksLike logged.2.2 logged'.2.2 := by
  intro plain plain' logged logged'
  have ties : logged.1 = plain.1 ∧ logged.2.1 = plain.2 :=
    tree.eval_logging depth environment host scope state
  have ties' : logged'.1 = plain'.1 ∧ logged'.2.1 = plain'.2 :=
    tree'.eval_logging depth environment host scope state
  have related : Agree (fun _ => True) Value.Parenthesized logged.1 logged'.1 ∧
      Host.WatchedAlike logged.2 logged'.2 :=
    related_eval_of_parenthesized respects environment depth scope added (state, []) (state, [])
      ⟨rfl, .nil⟩
  obtain ⟨agree, states, calls⟩ := related
  rw [ties.1, ties'.1] at agree
  rw [ties.2, ties'.2] at states
  refine ⟨?_, states, Prod.ext ties.1 ties.2, Prod.ext ties'.1 ties'.2, calls⟩
  apply agree.imp
  intro value value' values
  exact ⟨values.dump_eq, Value.format_eq_of_dump_eq values.dump_eq⟩

/-- A level with a dictionary and the function of the host. -/
def furnished : Environment :=
  ⟨[⟨⟨[(utf8 "d", .dictionary ⟨[(utf8 "k", .number ⟨5, 1⟩)]⟩),
    (utf8 "TEE", .closure (.host (utf8 "TEE")))]⟩, none⟩]⟩

/-- A function that selects from the dictionary, where something is put around every
node that may have it. -/
def selecting (around : Tree → Tree) : Tree :=
  around (function (some (utf8 "u"))
    (around (combination (utf8 ".") (around (word (utf8 "d"))) (word (utf8 "k")))))

/-- The function is handed to the host and called, for the value of an entry whose
key is a word. -/
def handing (around : Tree → Tree) : Tree :=
  around (dictionary [(word (utf8 "r"), around (application
    (around (application (around (word (utf8 "TEE"))) (selecting around))) (around null)))])

theorem parenthesized_selecting : (selecting id).Parenthesized (selecting wrap) :=
  .wrap (.function _ (.wrap (.combination (.wrap (.same _)) (.same _) fun _ _ same => same)))

theorem parenthesized_handing : (handing id).Parenthesized (handing wrap) := by
  have handed : (application (word (utf8 "TEE")) (selecting id)).Parenthesized
      (application (word (utf8 "TEE")).wrap (selecting wrap)).wrap :=
    .wrap (.application (.wrap (.same _)) parenthesized_selecting)
  apply Parenthesized.wrap
  apply Parenthesized.dictionary (Eq.refl 1)
  · exact List.forall_mem_singleton.mpr fun _ same => same
  · exact List.forall_mem_singleton.mpr (.same _)
  · exact List.forall_mem_singleton.mpr (.wrap (.application handed (.wrap (.same _))))

theorem eval_of_parenthesized_handing :
    let console := Command.Console.initial none false
    let ending (tree : Tree) :=
      (tree.eval furnished (Command.teeHost .none) 1 (Scope.atLevel 0)).start console
    (handing id).Parenthesized (handing wrap) ∧
    (ending (handing wrap)).2.output = utf8 "(\\x)\n" ∧
    (ending (handing id)).2 = (ending (handing wrap)).2 ∧
    ∃ value, (ending (handing wrap)).1 = .ok value ∧
      value.dump = .dictionary [(utf8 "r", .number ⟨5, 1⟩)] := by
  intro console ending
  have alike := eval_of_parenthesized 1 furnished (Command.teeHost .none)
    (Command.seesDumpsOnly_teeHost .none).respects_parenthesized (Scope.atLevel 0) (handing id)
    (handing wrap) parenthesized_handing console
  obtain ⟨value, bare, dump⟩ : ∃ value, (ending (handing id)).1 = .ok value ∧
      value.dump = .dictionary [(utf8 "r", .number ⟨5, 1⟩)] := ⟨_, rfl, rfl⟩
  have agree : Agree (fun _ => True) (fun value value' =>
      value.dump = value'.dump ∧ value.format = value'.format) (.ok value)
      (ending (handing wrap)).1 := bare ▸ alike.1
  have output : (ending (handing id)).2.output = utf8 "(\\x)\n" := rfl
  refine ⟨parenthesized_handing, alike.2.1 ▸ output, alike.2.1, ?_⟩
  generalize (ending (handing wrap)).1 = outcome at agree ⊢
  cases agree with
  | @ok _ value' related => exact ⟨value', rfl, related.1.symm.trans dump⟩

end Tree

end Juxta
