/-
# The executable

The outer layer of the command: it fetches what the options name, hands it to
the command and writes out what the command leaves. On a terminal the prompt
takes its lines as they are typed.
-/

import Juxta.Command.Run

namespace Juxta.Command

/-- The text of a byte string for a stream that takes bytes. -/
def putBytes (stream : IO.FS.Stream) (bytes : Bytes) : IO Unit := do
  stream.write ⟨bytes.toArray⟩
  stream.flush

/-- Everything that is left in a stream. -/
partial def readAll (stream : IO.FS.Stream) (before : ByteArray) : IO ByteArray := do
  let chunk ← stream.read 65536
  if chunk.isEmpty then return before
  readAll stream (before ++ chunk)

/-- The content of a file, or why it cannot be read. -/
def readFile (name : String) : IO (Except Bytes Bytes) := do
  try
    return .ok (← IO.FS.readBinFile name).data.toList
  catch error =>
    let path := utf8 name
    return .error <| match error with
      | .noFileOrDirectory _ _ _ => (FileError.missing path).message
      | .inappropriateType _ _ _ => (FileError.isDirectory path).message
      | other => utf8 (toString other)

/-- The history file, if there is a place for it. -/
def readHistory (path : Bytes) : IO (Option Bytes) := do
  match String.fromUTF8? ⟨path.toArray⟩ with
  | none => return none
  | some name =>
      if name.isEmpty then return none
      return some ((← readFile name).toOption.getD [])

/-- Writes the history file, if there is a place for it. -/
def writeHistory (path : Bytes) (history : Option Bytes) : IO Unit := do
  match String.fromUTF8? ⟨path.toArray⟩, history with
  | some name, some text =>
      try IO.FS.writeBinFile name ⟨text.toArray⟩ catch _ => pure ()
  | _, _ => pure ()

/-- Writes out what a console holds and empties it. -/
def drain (console : Console) : IO Console := do
  putBytes (← IO.getStdout) console.output
  putBytes (← IO.getStderr) console.complaints
  return { console with pieces := [], complaints := [] }

/-- Runs the prompt on lines as they are typed. -/
partial def converse (format : RawFormat) (prompt : Prompt) : IO Prompt := do
  let asked := prompt.ask
  let waiting := { asked with console := ← drain asked.console }
  let line ← (← IO.getStdin).getLine
  if line.isEmpty then
    let last := waiting.finish
    return { last with console := ← drain last.console }
  match Prompt.feed format waiting ((Line.split (utf8 line)).flatMap Line.text) with
  | .goOn next => converse format next
  | .done last => return { last with console := ← drain last.console }

/-- Writes out what a command leaves. -/
def finish (outcome : Outcome) : IO UInt32 := do
  putBytes (← IO.getStdout) outcome.output
  putBytes (← IO.getStderr) outcome.complaints
  return UInt32.ofNat outcome.code

/-- Runs the command with what the options name. -/
def execute (options : Options) : IO UInt32 := do
  let stdin ← IO.getStdin
  let isTerminal ← stdin.isTty
  let world : World :=
    ⟨.ok [], ⟨[]⟩, none, none, ← (← IO.getStdout).isTty⟩
  if options.help then finish (run options world)
  else match options.source isTerminal with
    | .expression text => finish (runText options (.ok text) world)
    | .file name =>
        finish (runText options (← readFile ((String.fromUTF8? ⟨name.toArray⟩).getD "")) world)
    | .standardInput =>
        finish (runText options (.ok (← readAll stdin ByteArray.empty).data.toList) world)
    | .prompt => do
        let path := historyPath ((← IO.getEnv "NLI_HISTORY").map utf8)
          ((← IO.getEnv "HOME").map utf8)
        let history ← readHistory path
        if isTerminal then
          let start := Prompt.start (History.ofText (history.getD []))
            (Console.initial none world.isColored)
          let last ← converse options.raw start
          writeHistory path (history.map fun _ => last.history.text)
          return 0
        else
          let input := (← readAll stdin ByteArray.empty).data.toList
          let outcome := runPrompt options { world with input := .ok input, history := history }
          writeHistory path outcome.history
          finish outcome

end Juxta.Command

/-- The command as an executable. -/
def main (arguments : List String) : IO UInt32 := do
  match Juxta.Command.Options.ofArguments Juxta.Command.commandName
      (arguments.map Juxta.utf8) with
  | .ok options => Juxta.Command.execute options
  | .error (error, _) =>
      Juxta.Command.finish
        ⟨1, [], Juxta.Command.refusal Juxta.Command.commandName error, none⟩
