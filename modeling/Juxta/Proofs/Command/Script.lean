/-
# Runs that only write

A run of the command does not look at what is on its console: it writes pieces
one after the other and then ends with an outcome, and both are the same on
every console. Such a run is a script. Whatever evaluation does with `TEE`, in
operands, items, keys, arguments or the function of a map, is one script for the
whole program.
-/

import Juxta.Command.Batch
import Juxta.Proofs.Eval.Sort

namespace Juxta.Command

open Run (Agree Relation)

variable {α β γ : Type}

/-- Writes pieces one after the other and then ends with an outcome. -/
def script (pieces : List Bytes) (outcome : Except Failure α) : Run Console α :=
  writeAll pieces >>= fun _ => ExceptT.mk (pure outcome)

/-- A run that writes pieces and ends with an outcome, whatever console it finds. -/
def IsScript (run : Run Console α) : Prop := ∃ pieces outcome, run = script pieces outcome

theorem writeAll_append (first second : List Bytes) :
    writeAll (first ++ second) = writeAll first >>= fun _ => writeAll second := by
  induction first with
  | nil => rfl
  | cons piece rest ih => rw [List.cons_append, writeAll, writeAll, bind_assoc, ih]

theorem script_cons (piece : Bytes) (rest : List Bytes) (outcome : Except Failure α) :
    script (piece :: rest) outcome = write piece >>= fun _ => script rest outcome := by
  rw [script, writeAll, bind_assoc]
  rfl

theorem script_ok_bind (pieces : List Bytes) (result : α) (next : α → Run Console β) :
    script pieces (.ok result) >>= next = writeAll pieces >>= fun _ => next result := by
  rw [script, bind_assoc]
  rfl

theorem script_error_bind (pieces : List Bytes) (failure : Failure) (next : α → Run Console β) :
    script pieces (.error failure) >>= next = script pieces (.error failure) := by
  rw [script, bind_assoc]
  rfl

/-- A script that goes on with another one is one script. -/
theorem script_append (first second : List Bytes) (outcome : Except Failure α) :
    script (first ++ second) outcome = writeAll first >>= fun _ => script second outcome := by
  rw [script, writeAll_append, bind_assoc]
  rfl

/-- Two runs that write the same pieces and have outcomes that agree. -/
def Scripted (results : α → β → Prop) (first : Run Console α) (second : Run Console β) : Prop :=
  ∃ pieces outcome outcome', first = script pieces outcome ∧ second = script pieces outcome' ∧
    Agree (fun _ => True) results outcome outcome'

theorem Scripted.bind {δ : Type} {results : α → β → Prop} {results' : γ → δ → Prop}
    {first : Run Console α} {second : Run Console β} {next : α → Run Console γ}
    {next' : β → Run Console δ} (related : Scripted results first second)
    (later : ∀ a b, results a b → Scripted results' (next a) (next' b)) :
    Scripted results' (first >>= next) (second >>= next') := by
  obtain ⟨pieces, outcome, outcome', rfl, rfl, agree⟩ := related
  cases agree with
  | ok same =>
      obtain ⟨others, outcome, outcome', goesOn, goesOn', agree⟩ := later _ _ same
      refine ⟨pieces ++ others, outcome, outcome', ?_, ?_, agree⟩
      · rw [script_ok_bind, goesOn, script_append]
      · rw [script_ok_bind, goesOn', script_append]
  | @error failure permitted =>
      exact ⟨pieces, .error failure, .error failure, script_error_bind _ _ _,
        script_error_bind _ _ _, .error trivial⟩

/-- The relation of runs that write the same pieces. It permits every failure. -/
def scripted : Relation Console Console where
  relates := Scripted
  permits _ := True
  ordinary _ := trivial
  ofPure {_ _ _ first second} related := ⟨[], .ok first, .ok second, rfl, rfl, .ok related⟩
  ofThrow {_ _ _ failure} _ := ⟨[], .error failure, .error failure, rfl, rfl, .error trivial⟩
  bind := Scripted.bind

theorem isScript_of_scripted {values : Value → Prop} {run : Run Console Value}
    (related : Scripted (Value.Same values) run run) : IsScript run := by
  obtain ⟨pieces, outcome, _, same, _, _⟩ := related
  exact ⟨pieces, outcome, same⟩

/-- What `TEE` prints. -/
def teeText (format : RawFormat) (value : Value) : Bytes :=
  (rawText? format value).getD (valueLine value)

/-- A call of the host writes one piece and gives the argument back. -/
theorem ofHost_teeHost (format : RawFormat) (name : Bytes) (argument : Value) :
    Run.ofHost ((teeHost format).call name argument) =
      script [teeText format argument] (.ok argument) := by
  have tee : (teeHost format).call name argument =
      Console.write (teeText format argument) >>= fun _ => pure argument := rfl
  rw [tee, Run.ofHost_bind_pure, script_cons]
  rfl

theorem alike_teeHost (format : RawFormat) :
    (teeHost format).Alike scripted (fun _ => True) (teeHost format) := by
  intro name argument _
  have call := ofHost_teeHost format name argument
  exact ⟨[teeText format argument], .ok argument, .ok argument, call, call, .ok ⟨trivial, rfl⟩⟩

/-- The evaluation of every program is a script. -/
theorem isScript_interpret (format : RawFormat) (source : Bytes) :
    IsScript (interpret format source) := by
  rw [interpret, Program.interpret]
  cases Program.read source with
  | error failure => exact ⟨[], .error failure, rfl⟩
  | ok tree =>
      exact isScript_of_scripted ((Value.ClosedSort.all environment).relates_eval
        (Tree.hereditary_all fun _ => trivial) trivial (alike_teeHost format) _
        (fun _ _ => trivial) trivial)

theorem writeAll_eq_script (pieces : List Bytes) : writeAll pieces = script pieces (.ok ()) :=
  (bind_pure (writeAll pieces)).symm

theorem IsScript.bind {run : Run Console α} {next : α → Run Console β} (first : IsScript run)
    (later : ∀ result, IsScript (next result)) : IsScript (run >>= next) := by
  obtain ⟨pieces, outcome, rfl⟩ := first
  cases outcome with
  | ok result =>
      obtain ⟨others, outcome, goesOn⟩ := later result
      refine ⟨pieces ++ others, outcome, ?_⟩
      rw [script_ok_bind, goesOn, script_append]
  | error failure => exact ⟨pieces, .error failure, script_error_bind _ _ _⟩

theorem run_write (piece : Bytes) (console : Console) :
    (Console.write piece).run.run console =
      match console.put? piece with
      | .ok next => (.ok (), next)
      | .error text => (.error text, console) :=
  rfl

theorem start_write (piece : Bytes) (console : Console) :
    (write piece).start console =
      match console.put? piece with
      | .ok next => (.ok (), next)
      | .error text => (.error (.host text), console) := by
  rw [write, Run.start_ofHost, run_write]
  cases console.put? piece <;> rfl

theorem put?_of_room_none {console : Console} (unbounded : console.room = none) (piece : Bytes) :
    console.put? piece = .ok (console.echo piece) := by
  obtain ⟨pieces, room, complaints, isColored⟩ := console
  obtain rfl : room = none := unbounded
  rfl

/-- On an unbounded console a script writes all its pieces. -/
theorem start_script_of_room_none (pieces : List Bytes) (outcome : Except Failure α)
    {console : Console} (unbounded : console.room = none) :
    (script pieces outcome).start console = (outcome, pieces.foldl Console.echo console) := by
  induction pieces generalizing console with
  | nil => rfl
  | cons piece rest ih =>
      rw [script_cons, Run.start_bind, start_write, put?_of_room_none unbounded, List.foldl_cons]
      exact ih unbounded

/-- Pieces that are written without counting leave the rest of the console as it is. -/
theorem foldl_echo (pieces : List Bytes) (console : Console) :
    pieces.foldl Console.echo console = { console with pieces := console.pieces ++ pieces } := by
  induction pieces generalizing console with
  | nil => rw [List.foldl_nil, List.append_nil]
  | cons piece rest ih =>
      rw [List.foldl_cons, ih, Console.echo, List.append_assoc, List.singleton_append]

/-- The exit code of an outcome, and the console with the complaint about it. -/
def report (ending : Except Failure Unit × Console) : Nat × Console :=
  match ending with
  | (.ok _, after) => (0, after)
  | (.error failure, after) => (1, after.complain failure.message)

theorem batch_eq_report (options : Options) (source : Bytes) (console : Console) :
    batch options source console = report ((perform options source).start console) := rfl

theorem batch_unbounded {options : Options} {source : Bytes} {pieces : List Bytes}
    {outcome : Except Failure Unit} (performed : perform options source = script pieces outcome)
    (isColored : Bool) :
    batch options source (Console.initial none isColored) =
      report (outcome, ⟨pieces, none, [], isColored⟩) := by
  rw [batch_eq_report, performed, start_script_of_room_none pieces outcome rfl, foldl_echo]
  rfl

end Juxta.Command
