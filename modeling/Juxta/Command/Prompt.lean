/-
# The prompt

The prompt reads programs line by line. Lines are collected as long as the text
fails only because it stops too early; then the program is evaluated and its
result printed. A failure is reported and the prompt goes on. All programs run
in the same environment, which none of them can change.
-/

import Juxta.Command.Batch
import Juxta.Command.History
import Juxta.Text.Blank

namespace Juxta.Command

/-- The prompt between two lines: the lines of an unfinished program, the
history, and what was written. -/
structure Prompt where
  collected : Bytes
  history : History
  console : Console

namespace Prompt

/-- The first line that the prompt writes. -/
def greeting : Bytes := utf8 "nli: Ctrl+C cancels input, Ctrl+D or :quit exits.\n"

/-- What stands before a line: one mark for the first line of a program, and
another for the lines after it. -/
def mark (collected : Bytes) : Bytes := if collected.isEmpty then utf8 "nli> " else utf8 "...  "

/-- The program that ends the prompt. -/
def quit : Bytes := utf8 ":quit"

/-- The text of an unfinished program and the line after it. -/
def join (collected line : Bytes) : Bytes :=
  if collected.isEmpty then line else collected ++ Ascii.newline :: line

/-- Evaluates a program and prints its result, in cyan, or complains. -/
def eval (format : RawFormat) (source : Bytes) (console : Console) : Console :=
  match (interpret format source).run console with
  | (.ok value, after) => after.offer (after.paint 6 value.format ++ [Ascii.newline])
  | (.error failure, after) => after.complain failure.message

/-- What a line leads to. -/
inductive Outcome
  | goOn (prompt : Prompt)
  | done (prompt : Prompt)

/-- Takes a complete program: a blank one is passed over, and one of them ends
the prompt. -/
def take (format : RawFormat) (prompt : Prompt) (source : Bytes) : Outcome :=
  let fresh := { prompt with collected := [] }
  let trimmed := Blank.trim source
  if trimmed.isEmpty then .goOn fresh
  else if trimmed = quit then .done fresh
  else .goOn { fresh with
    history := prompt.history.add (History.entryOf source)
    console := eval format source prompt.console }

/-- Takes a line, which completes a program or not. -/
def feed (format : RawFormat) (prompt : Prompt) (line : Bytes) : Outcome :=
  let text := join prompt.collected line
  if Program.needsMore text then .goOn { prompt with collected := text }
  else take format prompt text

/-- Writes the mark before a line. -/
def ask (prompt : Prompt) : Prompt :=
  { prompt with console := prompt.console.echo (mark prompt.collected) }

/-- Ends the prompt where the input ends. -/
def finish (prompt : Prompt) : Prompt :=
  { prompt with console := prompt.console.offer [Ascii.newline] }

/-- The prompt before the first line. -/
def start (history : History) (console : Console) : Prompt :=
  ⟨[], history, console.offer greeting⟩

/-- Runs the prompt on the lines of its input. -/
def run (format : RawFormat) (prompt : Prompt) : List Bytes → Prompt
  | [] => prompt.ask.finish
  | line :: rest =>
      match feed format prompt.ask line with
      | .goOn next => run format next rest
      | .done last => last

end Prompt

end Juxta.Command
