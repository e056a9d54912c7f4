/-
# The transcript of a prompt

A program writes the same at a prompt whatever was typed before it, if there is room for
all of it. This is so because its evaluation is a script. What a prompt leaves on its
console is then put together from what its programs leave on consoles of their own.
Where there is no raw form and no colour, the prompt prints a value as the command does
that is given the program as a whole.
-/

import Juxta.Proofs.Command.Programs

namespace Juxta.Command

namespace Console

/-- A console and behind it what was left on another one. -/
def followedBy (console later : Console) : Console :=
  { console with
    pieces := console.pieces ++ later.pieces
    complaints := console.complaints ++ later.complaints }

theorem output_followedBy (console later : Console) :
    (console.followedBy later).output = console.output ++ later.output :=
  List.flatten_append

theorem followedBy_assoc (console second third : Console) :
    (console.followedBy second).followedBy third =
      console.followedBy (second.followedBy third) := by
  simp only [followedBy, List.append_assoc]

/-- A console on which some pieces were written. -/
def ofPieces (pieces : List Bytes) : Console := ⟨pieces, none, [], false⟩

theorem foldl_echo_eq_followedBy (pieces : List Bytes) (console : Console) :
    pieces.foldl echo console = console.followedBy (ofPieces pieces) := by
  rw [foldl_echo, followedBy, ofPieces, List.append_nil]

theorem followedBy_nil (console : Console) : console.followedBy (ofPieces []) = console := by
  rw [followedBy, ofPieces, List.append_nil, List.append_nil]

theorem offer_eq_echo {console : Console} (unbounded : console.room = none) (piece : Bytes) :
    console.offer piece = console.echo piece := by
  rw [offer, put?_of_room_none unbounded]

theorem echo_followedBy (console later : Console) (piece : Bytes) :
    (console.followedBy later).echo piece = console.followedBy (later.echo piece) := by
  simp only [echo, followedBy, List.append_assoc]

theorem paint_followedBy {console later : Console}
    (colors : later.isColored = console.isColored) (color : Nat) (text : Bytes) :
    (console.followedBy later).paint color text = later.paint color text := by
  rw [paint, paint, colors]
  rfl

theorem complain_followedBy {console later : Console}
    (colors : later.isColored = console.isColored) (message : Bytes) :
    (console.followedBy later).complain message = console.followedBy (later.complain message) := by
  rw [complain, complain, paint_followedBy colors]
  simp only [followedBy, List.append_assoc]

end Console

/-- The options to evaluate a program and print no raw form. -/
def aloneOptions (source : Bytes) : Options := { expression := some source, raw := .none }

/-- What a program leaves on a console of its own. -/
def alone (source : Bytes) : Console :=
  (batch (aloneOptions source) source (Console.initial none false)).2

namespace Prompt

/-- At a prompt a program adds to the console what it leaves on a console of its own. -/
theorem eval_eq_followedBy (format : RawFormat) (source : Bytes) {console : Console}
    (unbounded : console.room = none) :
    eval format source console =
      console.followedBy (eval format source (Console.initial none console.isColored)) := by
  obtain ⟨pieces, outcome, interpreted⟩ := isScript_interpret format source
  have evaluated {start : Console} (unbounded : start.room = none) :
      (interpret format source).run start = (outcome, start.followedBy (.ofPieces pieces)) := by
    rw [interpreted, ← Console.foldl_echo_eq_followedBy]
    exact start_script_of_room_none pieces outcome unbounded
  obtain ⟨own, ownRun, ownRoom, colors, behind⟩ : ∃ own : Console,
      (interpret format source).run (Console.initial none console.isColored) = (outcome, own) ∧
      own.room = none ∧ own.isColored = console.isColored ∧
      console.followedBy (.ofPieces pieces) = console.followedBy own :=
    ⟨_, evaluated rfl, rfl, rfl, rfl⟩
  rw [eval, eval, evaluated unbounded, ownRun, behind]
  cases outcome with
  | ok value =>
      have room : (console.followedBy own).room = none := unbounded
      dsimp only
      rw [Console.paint_followedBy colors, Console.offer_eq_echo room,
        Console.offer_eq_echo ownRoom, Console.echo_followedBy]
  | error failure => exact Console.complain_followedBy colors failure.message

/-- A prompt without raw forms and without colours leaves of a program what the command
leaves of it. -/
theorem eval_eq_alone (source : Bytes) :
    eval .none source (Console.initial none false) = alone source := by
  obtain ⟨pieces, outcome, interpreted⟩ := isScript_interpret .none source
  have evaluated : (interpret .none source).run (Console.initial none false) =
      (outcome, Console.ofPieces pieces) := by
    rw [interpreted]
    exact (start_script_of_room_none pieces outcome rfl).trans
      (congrArg (Prod.mk outcome) (Console.foldl_echo_eq_followedBy pieces _))
  have performed : perform (aloneOptions source) source =
      interpret .none source >>= fun value => writeAll [valueLine value] := rfl
  rw [interpreted] at performed
  rw [eval, evaluated, alone]
  cases outcome with
  | ok value =>
      -- The value is one more piece, at the prompt and without it.
      rw [script_ok_bind, ← writeAll_append, writeAll_eq_script] at performed
      rw [batch_unbounded performed]
      rfl
  | error failure =>
      rw [script_error_bind] at performed
      rw [batch_unbounded performed]
      rfl

/-- What a program leaves on a console of its own, if it is evaluated. -/
def reply (format : RawFormat) (isColored : Bool) (program : List Bytes) : Console :=
  if IsEvaluated program then eval format (joined program) (Console.initial none isColored)
  else .ofPieces []

/-- What a program adds to the console of a prompt: the marks before its lines and its
reply. -/
def contribution (format : RawFormat) (isColored : Bool) (program : List Bytes) : Console :=
  (Console.ofPieces (marks program)).followedBy (reply format isColored program)

theorem played_eq_followedBy (format : RawFormat) {console : Console}
    (unbounded : console.room = none) (program : List Bytes) :
    played format console program =
      console.followedBy (contribution format console.isColored program) := by
  have printed : marked console program = console.followedBy (.ofPieces (marks program)) := by
    rw [marked, Console.followedBy, Console.ofPieces, List.append_nil]
  rw [contribution, ← Console.followedBy_assoc, ← printed, played, reply]
  split
  · exact eval_eq_followedBy format _ unbounded
  · exact (Console.followedBy_nil _).symm

/-- What some programs add to the console of a prompt, one after the other. -/
def contributions (format : RawFormat) (isColored : Bool) (programs : List (List Bytes)) :
    Console where
  pieces := programs.flatMap fun program => (contribution format isColored program).pieces
  room := none
  complaints := programs.flatMap fun program => (contribution format isColored program).complaints
  isColored := false

theorem contributions_output (format : RawFormat) (isColored : Bool)
    (programs : List (List Bytes)) :
    (contributions format isColored programs).output = programs.flatMap fun program =>
      (marks program).flatten ++ (reply format isColored program).output := by
  have each (program : List Bytes) : (contribution format isColored program).output =
      (marks program).flatten ++ (reply format isColored program).output :=
    Console.output_followedBy _ _
  simp only [← each]
  simp only [Console.output, contributions, ← List.flatMap_id]
  exact List.flatMap_assoc

theorem foldl_played_eq_followedBy (format : RawFormat) (programs : List (List Bytes))
    {console : Console} (unbounded : console.room = none) :
    programs.foldl (played format) console =
      console.followedBy (contributions format console.isColored programs) := by
  induction programs generalizing console with
  | nil => exact (Console.followedBy_nil _).symm
  | cons program programs ih =>
      have room : (played format console program).room = none := by
        rw [played_eq_followedBy format unbounded]
        exact unbounded
      rw [List.foldl_cons, ih room, played_eq_followedBy format unbounded,
        Console.followedBy_assoc]
      rfl

/-- What a prompt writes when its input ends: the marks before the lines that are
left and before the line that it asked for in vain, and a line end. -/
def closing (rest : List Bytes) (quits : Bool) : List Bytes :=
  if quits then [] else marks rest ++ [mark (joined rest), [Ascii.newline]]

theorem closing_eq {lines rest : List Bytes} {programs : List (List Bytes)} {quits : Bool}
    (splits : Splits lines programs rest quits) :
    closing rest quits = if quits then [] else marks (rest ++ [[]]) ++ [[Ascii.newline]] := by
  cases quits with
  | true => rfl
  | false =>
      rw [closing, marks_concat (splits.unfinished rfl), List.append_assoc]
      rfl

theorem closed_eq_followedBy (format : RawFormat) {console : Console}
    (unbounded : console.room = none) {lines rest : List Bytes} {programs : List (List Bytes)}
    {quits : Bool} (splits : Splits lines programs rest quits) :
    closed format console programs rest quits =
      (console.followedBy (contributions format console.isColored programs)).followedBy
        (.ofPieces (closing rest quits)) := by
  rw [closing_eq splits, closed, ← foldl_played_eq_followedBy format programs unbounded]
  cases quits with
  | true => exact (Console.followedBy_nil _).symm
  | false =>
      have room : (marked (programs.foldl (played format) console) (rest ++ [[]])).room = none := by
        rw [foldl_played_eq_followedBy format programs unbounded]
        exact unbounded
      rw [if_neg Bool.false_ne_true, if_neg Bool.false_ne_true, Console.offer_eq_echo room]
      simp [marked, Console.echo, Console.followedBy, Console.ofPieces]

end Prompt

/-- A world that takes all output and paints nothing. -/
def World.plain (world : World) : World := { world with room := none, isColored := false }

theorem launch_alone (world : World) (source : Bytes) :
    launch commandName [utf8 "-r", utf8 "none", utf8 "-e", source] world.plain =
      (alone source).outcome (batch (aloneOptions source) source (Console.initial none false)).1
        world.history := rfl

theorem launch_prompt (world : World) :
    launch commandName [utf8 "-i", utf8 "-r", utf8 "none"] world =
      runPrompt { prompt := true, raw := .none } world := rfl

/-- The console of a prompt before its first line. -/
def World.console (world : World) : Console :=
  (Console.initial world.room world.isColored).offer Prompt.greeting

/-- What a prompt leaves behind, from the programs that its lines are cut into. -/
theorem runPrompt_eq_closed (options : Options) (world : World) {programs : List (List Bytes)}
    {rest : List Bytes} {quits : Bool} (splits : Prompt.Splits world.lines programs rest quits) :
    runPrompt options world =
      (Prompt.closed options.raw world.console programs rest quits).outcome 0
        (world.history.map fun text =>
          (programs.foldl Prompt.remembered (History.ofText text)).text) := by
  obtain ⟨programs', rest', quits', splits', ending⟩ :=
    Prompt.exists_splits options.raw world.lines (rfl : world.firstPrompt.collected = [])
  obtain ⟨rfl, rfl, rfl⟩ := splits'.unique splits
  obtain ⟨histories, consoles⟩ := Prompt.ended_eq options.raw
    (History.ofText (world.history.getD [])) world.console splits
  have ran : runPrompt options world =
      (Prompt.run options.raw world.firstPrompt world.lines).console.outcome 0
        (world.history.map fun _ =>
          (Prompt.run options.raw world.firstPrompt world.lines).history.text) := rfl
  have first : world.firstPrompt =
      ⟨[], History.ofText (world.history.getD []), world.console⟩ := rfl
  have kept (programs : List (List Bytes)) : (world.history.map fun _ =>
      (programs.foldl Prompt.remembered (History.ofText (world.history.getD []))).text) =
      world.history.map fun text =>
        (programs.foldl Prompt.remembered (History.ofText text)).text := by
    cases world.history with
    | none => rw [Option.map_none, Option.map_none]
    | some text => rw [Option.map_some, Option.map_some, Option.getD_some]
  rw [ran, ending, first, consoles, histories, kept]

/-- What an unbounded prompt prints. -/
theorem output_closed {console : Console} (unbounded : console.room = none) (format : RawFormat)
    {lines rest : List Bytes} {programs : List (List Bytes)} {quits : Bool}
    (splits : Prompt.Splits lines programs rest quits) :
    (Prompt.closed format console programs rest quits).output = console.output ++
      (programs.flatMap fun program => (Prompt.marks program).flatten ++
        (Prompt.reply format console.isColored program).output) ++
      (Prompt.closing rest quits).flatten := by
  rw [Prompt.closed_eq_followedBy format unbounded splits, Console.output_followedBy,
    Console.output_followedBy, Prompt.contributions_output]
  rfl

/-- What an unbounded prompt complains of. -/
theorem complaints_closed {console : Console} (unbounded : console.room = none)
    (format : RawFormat) {lines rest : List Bytes} {programs : List (List Bytes)} {quits : Bool}
    (splits : Prompt.Splits lines programs rest quits) :
    (Prompt.closed format console programs rest quits).complaints = console.complaints ++
      programs.flatMap fun program =>
        (Prompt.reply format console.isColored program).complaints := by
  rw [Prompt.closed_eq_followedBy format unbounded splits]
  exact List.append_nil _

/-- The transcript of a prompt is the greeting, and for each of its programs the
marks before the lines of the program and, if the program is evaluated, what the
command writes for that program alone. The end of the input adds its own marks and
a line end. The complaints are those of the programs alone. -/
theorem launch_prompt_transcript (world around : World) :
    let session := launch commandName [utf8 "-i", utf8 "-r", utf8 "none"] world.plain
    let single program := launch commandName
      [utf8 "-r", utf8 "none", utf8 "-e", Prompt.joined program] around.plain
    ∃ programs rest quits, Prompt.Splits world.lines programs rest quits ∧
      session.code = 0 ∧
      session.output = Prompt.greeting ++
        (programs.flatMap fun program => (Prompt.marks program).flatten ++
          if Prompt.IsEvaluated program then (single program).output else []) ++
        (Prompt.closing rest quits).flatten ∧
      session.complaints = programs.flatMap fun program =>
        if Prompt.IsEvaluated program then (single program).complaints else [] := by
  intro session single
  obtain ⟨programs, rest, quits, splits, -⟩ :=
    Prompt.exists_splits .none world.lines (rfl : world.plain.firstPrompt.collected = [])
  have ran : session = _ := (launch_prompt world.plain).trans (runPrompt_eq_closed _ _ splits)
  have replies (program : List Bytes) : Prompt.reply .none false program =
      if Prompt.IsEvaluated program then alone (Prompt.joined program) else .ofPieces [] := by
    rw [Prompt.reply, Prompt.eval_eq_alone]
  have singles (program : List Bytes) : single program = _ :=
    launch_alone around (Prompt.joined program)
  have unbounded : world.plain.console.room = none := rfl
  have uncolored : world.plain.console.isColored = false := rfl
  refine ⟨programs, rest, quits, splits, by rw [ran]; rfl, ?_, ?_⟩
  · have printed : session.output =
        (Prompt.closed .none world.plain.console programs rest quits).output := by
      rw [ran]
      rfl
    rw [printed, output_closed unbounded .none splits]
    simp only [uncolored, replies, singles, apply_ite Console.output]
    rfl
  · have complained : session.complaints =
        (Prompt.closed .none world.plain.console programs rest quits).complaints := by
      rw [ran]
      rfl
    rw [complained, complaints_closed unbounded .none splits]
    simp only [uncolored, replies, singles, apply_ite Console.complaints]
    rfl

end Juxta.Command
