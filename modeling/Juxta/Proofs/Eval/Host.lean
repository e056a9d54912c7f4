/-
# Hosts and their logs

To speak of the calls that a program makes of the host, the program is run a second
time with a host that logs every call and its answer. The log changes nothing else. If
the host answers arguments of a sort with values of the sort, then a program over a
closed sort of values hands the host only arguments of the sort. Where two runs hand
different functions to the host, the host must not tell them apart: it may look at
their dumps, or it may take values apart and put them together without a look into the
functions.
-/

import Juxta.Proofs.Eval.Sort
import Juxta.Proofs.Value.Dump

namespace Juxta

open Run (Agree)

variable {σ : Type}

/-- A relation that hosts see as one value: related values are made alike and have the
same dump, and what is the host's own is related to itself. -/
structure Value.SeenAsOne (alike : Value → Value → Prop) : Prop where
  likeness : Likeness (fun _ => True) alike
  dump_eq : ∀ {first second}, alike first second → first.dump = second.dump
  host : ∀ name, alike (closure (.host name)) (closure (.host name))
  foreign : alike foreign foreign
  nothing : alike nothing nothing

namespace Host

/-- A call of the host and its answer. -/
structure Call where
  name : Bytes
  argument : Value
  answer : Except Bytes Value

/-- A host that also logs every call with its answer, the latest last. -/
def logging (host : Host σ) : Host (σ × List Call) where
  call name argument := ExceptT.mk fun (state, log) =>
    let (answer, later) := (host.call name argument).run.run state
    (answer, (later, log ++ [⟨name, argument, answer⟩]))

theorem start_ofHost_logging (host : Host σ) (name : Bytes) (argument : Value) (state : σ)
    (log : List Call) :
    (Run.ofHost (host.logging.call name argument)).start (state, log) =
      let (answer, later) := (host.call name argument).run.run state
      (answer.mapError .host, later, log ++ [⟨name, argument, answer⟩]) := by
  rw [Run.start_ofHost]
  rfl

/-- A host answers arguments of a sort with values of the sort or with errors. -/
def Keeps (values : Value → Prop) (host : Host σ) : Prop :=
  ∀ name argument state value later, values argument →
    (host.call name argument).run.run state = (.ok value, later) → values value

theorem keeps_all (host : Host σ) : host.Keeps fun _ => True := fun _ _ _ _ _ _ _ => trivial

/-- A state beside the same state with a log of arguments of a sort. -/
def Logs (values : Value → Prop) (state : σ) (logged : σ × List Call) : Prop :=
  logged.1 = state ∧ ∀ call ∈ logged.2, values call.argument

theorem Keeps.alike_logging {values : Value → Prop} {host : Host σ} (keeps : host.Keeps values) :
    host.Alike (Run.relatedBy (Logs values)) values host.logging := by
  rintro name argument sort _ ⟨state, log⟩ ⟨rfl, logs⟩
  rw [Run.start_ofHost, start_ofHost_logging]
  rcases answered : (host.call name argument).run.run state with ⟨answer, later⟩
  have longer : ∀ call ∈ log ++ [⟨name, argument, answer⟩], values call.argument := by
    rw [List.forall_mem_append, List.forall_mem_singleton]
    exact ⟨logs, sort⟩
  refine ⟨?_, rfl, longer⟩
  cases answer with
  | ok value => exact .ok ⟨keeps name argument state value later sort answered, rfl⟩
  | error text => exact .error trivial

/-! ### Hosts that cannot tell arguments apart -/

/-- The answers to two arguments are alike: the same refusal, the arguments
themselves, or one value. -/
inductive AnsweredAlike (argument argument' : Value) :
    Except Bytes Value → Except Bytes Value → Prop
  | refused (text : Bytes) : AnsweredAlike argument argument' (.error text) (.error text)
  | returned : AnsweredAlike argument argument' (.ok argument) (.ok argument')
  | answered (value : Value) : AnsweredAlike argument argument' (.ok value) (.ok value)

/-- A host treats arguments with the same dump alike: it does the same to its
state and gives answers that are alike. -/
def SeesDumpsOnly (host : Host σ) : Prop :=
  ∀ name argument argument' state, argument.dump = argument'.dump →
    AnsweredAlike argument argument' ((host.call name argument).run.run state).1
      ((host.call name argument').run.run state).1 ∧
    ((host.call name argument).run.run state).2 = ((host.call name argument').run.run state).2

/-- A host treats related arguments alike: it does the same to its state, and
refuses both in the same words or gives related answers. -/
def Respects (host : Host σ) (alike : Value → Value → Prop) : Prop :=
  ∀ name argument argument' state, alike argument argument' →
    Agree (fun _ => True) alike ((host.call name argument).run.run state).1
      ((host.call name argument').run.run state).1 ∧
    ((host.call name argument).run.run state).2 = ((host.call name argument').run.run state).2

/-- A host does not look into functions: it respects whatever it may see as one. -/
def IsUniform (host : Host σ) : Prop := ∀ alike, Value.SeenAsOne alike → host.Respects alike

/-- Two calls of one function of the host with arguments of the same dump. -/
def Call.LooksLike (first second : Call) : Prop :=
  first.name = second.name ∧ first.argument.dump = second.argument.dump

/-- One state of the host, reached by calls that look alike one by one. -/
def WatchedAlike (first second : σ × List Call) : Prop :=
  first.1 = second.1 ∧ List.Forall₂ Call.LooksLike first.2 second.2

variable {host : Host σ} {alike : Value → Value → Prop}

/-- A host that sees dumps only respects every relation between values with the same
dump that relates each value to itself. -/
theorem SeesDumpsOnly.respects (sees : host.SeesDumpsOnly) (itself : ∀ value, alike value value)
    (dumps : ∀ {first second}, alike first second → first.dump = second.dump) :
    host.Respects alike := by
  intro name argument argument' state arguments
  obtain ⟨answers, states⟩ := sees name argument argument' state (dumps arguments)
  refine ⟨?_, states⟩
  generalize ((host.call name argument).run.run state).1 = answer,
    ((host.call name argument').run.run state).1 = answer' at answers
  cases answers with
  | refused text => exact .error trivial
  | returned => exact .ok arguments
  | answered value => exact .ok (itself value)

/-- What a host respects it respects under a log as well, if the log cannot tell
the arguments apart. -/
theorem Respects.related_logging (respects : host.Respects alike)
    (dumps : ∀ {first second}, alike first second → first.dump = second.dump) (name : Bytes)
    {argument argument' : Value} (arguments : alike argument argument') :
    Run.Related WatchedAlike alike (Run.ofHost (host.logging.call name argument))
      (Run.ofHost (host.logging.call name argument')) := by
  rintro ⟨state, log⟩ ⟨_, log'⟩ ⟨rfl, logs⟩
  have answers := respects name argument argument' state arguments
  rw [start_ofHost_logging, start_ofHost_logging]
  revert answers
  rcases (host.call name argument).run.run state with ⟨answer, later⟩
  rcases (host.call name argument').run.run state with ⟨answer', later'⟩
  rintro ⟨agree, rfl⟩
  have longer : List.Forall₂ Call.LooksLike (log ++ [⟨name, argument, answer⟩])
      (log' ++ [⟨name, argument', answer'⟩]) :=
    List.rel_append logs (.cons ⟨rfl, dumps arguments⟩ .nil)
  cases agree with
  | ok related => exact ⟨.ok related, rfl, longer⟩
  | error => exact ⟨.error trivial, rfl, longer⟩

end Host

namespace Value.ClosedSort

variable {environment : Environment} {numbers : Fraction → Prop} {trees : Tree → Prop}
  {values : Value → Prop} {host : Host σ}

/-- A tree over a closed sort of values, run with a host that keeps to the sort and with
the same host under a log: the log changes nothing else, the result is of the sort, and
so is every argument that the host is handed. -/
theorem eval_logging (sort : ClosedSort environment numbers trees values)
    (hereditary : Tree.Hereditary numbers (fun _ => True) trees) (keeps : host.Keeps values)
    (depth : Nat) {scope : Scope Value}
    (captured : ∀ held ∈ environment.captured scope, values held) {tree : Tree}
    (written : trees tree) (state : σ) :
    let plain := (tree.eval environment host depth scope).start state
    let logged := (tree.eval environment host.logging depth scope).start (state, [])
    logged.1 = plain.1 ∧ logged.2.1 = plain.2 ∧ (∀ value, plain.1 = .ok value → values value) ∧
      ∀ call ∈ logged.2.2, values call.argument := by
  intro plain logged
  have related : Run.Related (Host.Logs values) (Same values)
      (tree.eval environment host depth scope) (tree.eval environment host.logging depth scope) :=
    sort.relates_eval hereditary trivial keeps.alike_logging depth captured written
  obtain ⟨agree, same, logs⟩ := related state (state, []) ⟨rfl, nofun⟩
  change Run.Agree (fun _ => True) (Same values) plain.1 logged.1 at agree
  refine ⟨(eq_of_agree_same agree).symm, same, ?_, logs⟩
  intro value result
  rw [result] at agree
  generalize logged.1 = outcome at agree
  cases agree with
  | ok same => exact same.1

end Value.ClosedSort

/-- Logging the calls of the host changes nothing else about an evaluation. -/
theorem Tree.eval_logging (depth : Nat) (environment : Environment) (host : Host σ)
    (scope : Scope Value) (tree : Tree) (state : σ) :
    let plain := (tree.eval environment host depth scope).start state
    let logged := (tree.eval environment host.logging depth scope).start (state, [])
    logged.1 = plain.1 ∧ logged.2.1 = plain.2 := by
  have all : ∀ held ∈ environment.captured scope, True := fun _ _ => trivial
  obtain ⟨outcomes, states, -⟩ := (Value.ClosedSort.all environment).eval_logging
    (hereditary_all fun _ => trivial) host.keeps_all depth all trivial state
  exact ⟨outcomes, states⟩

end Juxta
