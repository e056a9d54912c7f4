/-
# Lexical scoping

What a program does in an environment depends on the words that occur in it and
on nothing else there. A store of levels holds any number of environments, inside
each other or apart, and a scope picks one of them. If two scopes give every word
of a program the same value, or none, then the program ends alike in both, with
values that cannot be told apart by their dump, and calls the host alike. The two
runs do not see the same values: functions made on the way capture the one scope
or the other, and they may be handed to the host. So this holds for hosts that
tell arguments apart by their dumps only, such as the one of the command.
-/

import Juxta.Proofs.Command.Script
import Juxta.Proofs.Program.Ending
import Juxta.Proofs.Value.Similar

namespace Juxta

open Run (Agree)

variable {σ : Type} {environment : Environment} {host : Host σ}

namespace Host

/-- A host that sees dumps only answers similar arguments with similar values. -/
theorem SeesDumpsOnly.related_logging (sees : host.SeesDumpsOnly) (name : Bytes)
    {argument argument' : Value} (similar : argument.Similar environment argument') :
    Run.Related WatchedAlike (Value.Similar environment)
      (Run.ofHost (host.logging.call name argument))
      (Run.ofHost (host.logging.call name argument')) :=
  (sees.respects .same Value.Similar.dump_eq).related_logging Value.Similar.dump_eq name similar

end Host

/-- Calls of similar functions with similar arguments, at every depth. -/
theorem Closure.callsAlike_similar (sees : host.SeesDumpsOnly) (depth : Nat) :
    CallsAlike (Run.relatedBy Host.WatchedAlike) (Value.Similar environment)
      (Closure.call environment host.logging depth)
      (Closure.call environment host.logging depth) := by
  induction depth with
  | zero =>
      intro function function' argument argument' functions arguments
      rcases functions.closure_cases with ⟨name, rfl, rfl⟩ | ⟨_, _, _, _, rfl, rfl, _⟩
      · exact sees.related_logging name arguments
      · exact Run.related_throw .tooDeep
  | succ depth ih =>
      intro function function' argument argument' functions arguments
      rcases functions.closure_cases with
        ⟨name, rfl, rfl⟩ | ⟨scope, scope', parameter, body, rfl, rfl, words⟩
      · exact sees.related_logging name arguments
      · rw [Closure.call, Closure.call]
        exact Tree.relates_evalWith (Value.likeness_similar environment)
          (Tree.hereditary_words _ fun _ => trivial) ih
          (Tree.scopesAlike_wordsSimilar environment _ _) body (words.bind parameter arguments)

/-- A tree in two scopes in which its words are similar. -/
theorem Tree.related_eval_of_wordsSimilar (sees : host.SeesDumpsOnly) (depth : Nat)
    {scope scope' : Scope Value} {tree : Tree}
    (words : tree.WordsSimilar environment scope scope') :
    (Run.relatedBy Host.WatchedAlike).relates (Value.Similar environment)
      (tree.eval environment host.logging depth scope)
      (tree.eval environment host.logging depth scope') :=
  relates_evalWith (Value.likeness_similar environment) (hereditary_words _ fun _ => trivial)
    (Closure.callsAlike_similar sees depth) (scopesAlike_wordsSimilar environment _ _) tree words

namespace Program

/-- Logging the calls of the host changes nothing else about a program. -/
theorem interpretWithin_logging (depth : Nat) (environment : Environment) (host : Host σ)
    (scope : Scope Value) (source : Bytes) (state : σ) :
    let plain := (interpretWithin depth environment host scope source).start state
    let logged := (interpretWithin depth environment host.logging scope source).start (state, [])
    logged.1 = plain.1 ∧ logged.2.1 = plain.2 := by
  simp only [interpretWithin]
  cases read source with
  | error failure => exact ⟨rfl, rfl⟩
  | ok tree => exact tree.eval_logging depth environment host scope state

/-- A program in two scopes that give every word of it the same value, or none,
with a host that sees dumps only: whatever the depth at which it is cut off, it is
cut off in both, it fails in both with the same failure, or it gives values with
the same dump and the same printed form. The host is left in the same state, and
the logs of its calls, which are logs of the very runs, show the same functions in
the same order with arguments of the same dumps. -/
theorem interpretWithin_of_same_words (depth : Nat) (environment : Environment) (host : Host σ)
    (sees : host.SeesDumpsOnly) (scope scope' : Scope Value) (source : Bytes)
    (words : ∀ tree, read source = .ok tree → ∀ name ∈ tree.words,
      environment.resolve? scope name = environment.resolve? scope' name) (state : σ) :
    let plain := (interpretWithin depth environment host scope source).start state
    let plain' := (interpretWithin depth environment host scope' source).start state
    let logged := (interpretWithin depth environment host.logging scope source).start (state, [])
    let logged' := (interpretWithin depth environment host.logging scope' source).start (state, [])
    Agree (fun _ => True) (fun value value' =>
        value.dump = value'.dump ∧ value.format = value'.format) plain.1 plain'.1 ∧
      plain.2 = plain'.2 ∧
      (logged.1, logged.2.1) = plain ∧ (logged'.1, logged'.2.1) = plain' ∧
      List.Forall₂ Host.Call.LooksLike logged.2.2 logged'.2.2 := by
  intro plain plain' logged logged'
  have ties : logged.1 = plain.1 ∧ logged.2.1 = plain.2 :=
    interpretWithin_logging depth environment host scope source state
  have ties' : logged'.1 = plain'.1 ∧ logged'.2.1 = plain'.2 :=
    interpretWithin_logging depth environment host scope' source state
  have related : Agree (fun _ => True) (Value.Similar environment) logged.1 logged'.1 ∧
      Host.WatchedAlike logged.2 logged'.2 := by
    simp only [logged, logged', interpretWithin]
    cases parsed : read source with
    | error failure => exact ⟨.error trivial, rfl, .nil⟩
    | ok tree =>
        have similar : tree.WordsSimilar environment scope scope' := by
          intro name occurs
          rw [words tree parsed name occurs]
          exact .same _
        exact Tree.related_eval_of_wordsSimilar sees depth similar (state, []) (state, [])
          ⟨rfl, .nil⟩
  obtain ⟨agree, states, calls⟩ := related
  rw [ties.1, ties'.1] at agree
  rw [ties.2, ties'.2] at states
  refine ⟨?_, states, Prod.ext ties.1 ties.2, Prod.ext ties'.1 ties'.2, calls⟩
  generalize plain.1 = outcome, plain'.1 = outcome' at agree
  cases agree with
  | ok similar => exact .ok ⟨similar.dump_eq, Value.format_eq_of_dump_eq similar.dump_eq⟩
  | error permitted => exact .error permitted

end Program

namespace Command

theorem run_teeHost (format : RawFormat) (name : Bytes) (argument : Value) (console : Console) :
    ((teeHost format).call name argument).run.run console =
      match console.put? (teeText format argument) with
      | .ok next => (.ok argument, next)
      | .error text => (.error text, console) := by
  have tee : (teeHost format).call name argument =
      Console.write (teeText format argument) >>= fun _ => pure argument := rfl
  rw [tee, Run.run_bind_pure, run_write]
  cases console.put? (teeText format argument) <;> rfl

theorem teeText_eq_of_dump_eq (format : RawFormat) {first second : Value}
    (same : first.dump = second.dump) : teeText format first = teeText format second := by
  cases format with
  | yaml => exact congrArg (fun dump => dump.document.yaml) same
  | json => exact congrArg (fun dump => dump.document.indented ++ [Ascii.newline]) same
  | none => exact congrArg (· ++ [Ascii.newline]) (Value.format_eq_of_dump_eq same)

/-- What the host of the command prints is determined by the dump, and it gives
every argument back. -/
theorem seesDumpsOnly_teeHost (format : RawFormat) : (teeHost format).SeesDumpsOnly := by
  intro name argument argument' console same
  rw [run_teeHost, run_teeHost, teeText_eq_of_dump_eq format same]
  cases console.put? (teeText format argument') with
  | ok next => exact ⟨.returned, rfl⟩
  | error text => exact ⟨.refused text, rfl⟩

end Command

namespace Program

/-- Two environments apart from each other. They agree on the function of the
host and on one number, and the second one binds another name as well. -/
def apart : Environment :=
  ⟨[⟨⟨[(utf8 "v", .number ⟨5, 1⟩), (utf8 "TEE", .closure (.host (utf8 "TEE"))),
      (utf8 "x", .number ⟨2, 1⟩)]⟩, none⟩,
    ⟨⟨[(utf8 "x", .number ⟨2, 1⟩), (utf8 "TEE", .closure (.host (utf8 "TEE")))]⟩, none⟩]⟩

theorem interpretWithin_of_same_words_teeClosure :
    let source := utf8 "(\\z [TEE (\\u x), z, w]) x"
    let console := Command.Console.initial none false
    let ending (level : Nat) :=
      (interpret apart (Command.teeHost .none) (Scope.atLevel level) source).start console
    (∃ tree, read source = .ok tree ∧ tree.words = ["TEE", "x", "z", "w", "x"].map utf8 ∧
      ∀ name ∈ tree.words,
        apart.resolve? (Scope.atLevel 0) name = apart.resolve? (Scope.atLevel 1) name) ∧
    apart.resolve? (Scope.atLevel 0) (utf8 "v") ≠ apart.resolve? (Scope.atLevel 1) (utf8 "v") ∧
    (ending 0).2.output = utf8 "(\\x)\n" ∧ (ending 0).2 = (ending 1).2 ∧
    ∃ value, (ending 1).1 = .ok value ∧
      value.dump = .list [.closure (some (utf8 "u")), .number ⟨2, 1⟩, .null] := by
  intro source console ending
  obtain ⟨tree, parsed, occurring⟩ : ∃ tree, read source = .ok tree ∧
      tree.words = ["TEE", "x", "z", "w", "x"].map utf8 := ⟨_, rfl, rfl⟩
  have same : ∀ name ∈ tree.words,
      apart.resolve? (Scope.atLevel 0) name = apart.resolve? (Scope.atLevel 1) name := by
    rw [occurring]
    simp only [List.map_cons, List.forall_mem_cons]
    exact ⟨rfl, rfl, rfl, rfl, rfl, nofun⟩
  have words : ∀ tree, read source = .ok tree → ∀ name ∈ tree.words,
      apart.resolve? (Scope.atLevel 0) name = apart.resolve? (Scope.atLevel 1) name := by
    intro other reading
    cases parsed.symm.trans reading
    exact same
  have alike := interpretWithin_of_same_words maxDepth apart (Command.teeHost .none)
    (Command.seesDumpsOnly_teeHost .none) (Scope.atLevel 0) (Scope.atLevel 1) source words console
  obtain ⟨value, here, dump⟩ : ∃ value, (ending 0).1 = .ok value ∧
      value.dump = .list [.closure (some (utf8 "u")), .number ⟨2, 1⟩, .null] := ⟨_, rfl, rfl⟩
  have agree : Agree (fun _ => True) (fun value value' =>
      value.dump = value'.dump ∧ value.format = value'.format) (.ok value) (ending 1).1 :=
    here ▸ alike.1
  refine ⟨⟨tree, parsed, occurring, same⟩, nofun, rfl, alike.2.1, ?_⟩
  generalize (ending 1).1 = outcome at agree ⊢
  cases agree with
  | @ok _ value' related => exact ⟨value', rfl, related.1.symm.trans dump⟩

end Program

end Juxta
