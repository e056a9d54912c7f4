/-
# The command

The command takes its program from an option, from a file, from the prompt or
from its standard input, in this order, and leaves an exit code and what it
wrote. Here it runs in a world that is given as a whole.
-/

import Juxta.Command.Directory
import Juxta.Command.Prompt

namespace Juxta.Command

/-- Where the program comes from. -/
inductive Source
  | expression (text : Bytes)
  | file (name : Bytes)
  | prompt
  | standardInput
  deriving DecidableEq, Repr

/-- The source that the options name. A terminal is a prompt. -/
def Options.source (options : Options) (isTerminal : Bool) : Source :=
  match options.expression, options.files with
  | some text, _ => .expression text
  | none, name :: _ => .file name
  | none, [] => if options.prompt || isTerminal then .prompt else .standardInput

/-- What a command finds around it: its input or why it cannot be read, the
files, the history file if there is a place for it, and the bounds of its output. -/
structure World where
  input : Except Bytes Bytes
  directory : Directory
  history : Option Bytes
  room : Option Nat
  isColored : Bool

/-- What a command leaves. -/
structure Outcome where
  code : Nat
  output : Bytes
  complaints : Bytes
  history : Option Bytes
  deriving DecidableEq, Repr

/-- The outcome of a console. -/
def Console.outcome (console : Console) (code : Nat) (history : Option Bytes) : Outcome :=
  ⟨code, console.output, console.complaints, history⟩

/-- Does with a text what the options ask for, or complains that there is none. -/
def runText (options : Options) (text : Except Bytes Bytes) (world : World) : Outcome :=
  let console := Console.initial world.room world.isColored
  match text with
  | .error message => (console.complain message).outcome 1 world.history
  | .ok source =>
      let (code, after) := batch options source console
      after.outcome code world.history

/-- Runs the prompt on the input. An input that cannot be read is empty. -/
def runPrompt (options : Options) (world : World) : Outcome :=
  let console := Console.initial world.room world.isColored
  let lines := (Line.split (world.input.toOption.getD [])).map Line.text
  let start := Prompt.start (History.ofText (world.history.getD [])) console
  let last := Prompt.run options.raw start lines
  last.console.outcome 0 (world.history.map fun _ => last.history.text)

/-- Runs the command. -/
def run (options : Options) (world : World) : Outcome :=
  if options.help then
    ((Console.initial world.room world.isColored).offer (usage commandName)).outcome 0
      world.history
  else
    match options.source false with
    | .expression text => runText options (.ok text) world
    | .file name => runText options ((world.directory.read name).mapError FileError.message) world
    | .prompt => runPrompt options world
    | .standardInput => runText options world.input world

/-- What is printed when the arguments are refused: the help text and the reason. -/
def refusal (program : Bytes) (error : FlagError) : Bytes :=
  usage program ++ commandName ++ utf8 ": " ++ error.message ++ [Ascii.newline]

/-- Runs the command from its name and its arguments. -/
def launch (program : Bytes) (arguments : List Bytes) (world : World) : Outcome :=
  match Options.ofArguments program arguments with
  | .ok options => run options world
  | .error (error, _) => ⟨1, [], refusal program error, world.history⟩

end Juxta.Command
