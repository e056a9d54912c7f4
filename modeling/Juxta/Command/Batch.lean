/-
# Running one program

A program that is given as a whole is shown as tokens, shown as a tree, or run.
Running prints the raw form of the result, an empty line and the printed form.
Programs may call `TEE`, which prints its argument and returns it.
-/

import Juxta.Command.Console
import Juxta.Command.Options
import Juxta.Document.Json.Writer
import Juxta.Document.Yaml.Writer
import Juxta.Program
import Juxta.Tree.Document
import Juxta.Value.Dump
import Juxta.Value.Format

namespace Juxta.Command

/-- The raw form of a value as a text, if there is to be one. -/
def rawText? (format : RawFormat) (value : Value) : Option Bytes :=
  match format with
  | .yaml => some value.dump.document.yaml
  | .json => some (value.dump.document.indented ++ [Ascii.newline])
  | .none => none

/-- The printed form of a value as a line. -/
def valueLine (value : Value) : Bytes := value.format ++ [Ascii.newline]

/-- The name of the host's function. -/
def teeName : Bytes := utf8 "TEE"

/-- The host of the command has one function. It writes the raw form of its
argument, or the printed form if there is no raw form, and returns the argument. -/
def teeHost (format : RawFormat) : Host Console where
  call _ argument := do
    Console.write ((rawText? format argument).getD (valueLine argument))
    pure argument

/-- The environment of programs: `TEE` and nothing else. -/
def environment : Environment :=
  Environment.initial.define 0 teeName (.closure (.host teeName))

/-- The value of a program in the environment of the command. -/
def interpret (format : RawFormat) (source : Bytes) : Run Console Value :=
  Program.interpret environment (teeHost format) (Scope.atLevel 0) source

/-- Writes a piece. -/
def write (piece : Bytes) : Run Console Unit := Run.ofHost (Console.write piece)

/-- Writes pieces one after the other. -/
def writeAll : List Bytes → Run Console Unit
  | [] => pure ()
  | piece :: rest => do
      write piece
      writeAll rest

/-- Prints the tokens of a program, one a line. -/
def printTokens (source : Bytes) : Run Console Unit :=
  match Token.scan source with
  | .error error => throw (.lex error)
  | .ok tokens =>
      writeAll (tokens.map fun token => token.document.compact ++ [Ascii.newline])

/-- Prints the tree of a program. -/
def printTree (source : Bytes) : Run Console Unit :=
  match Program.read source with
  | .error failure => throw failure
  | .ok tree => write (tree.document.indented ++ [Ascii.newline])

/-- Runs a program and prints its result. -/
def runProgram (format : RawFormat) (source : Bytes) : Run Console Unit := do
  let value ← interpret format source
  match rawText? format value with
  | some raw => writeAll [raw, [Ascii.newline], valueLine value]
  | none => writeAll [valueLine value]

/-- Does with a program what the options ask for. -/
def perform (options : Options) (source : Bytes) : Run Console Unit :=
  if options.showTokens then printTokens source
  else if options.showTree then printTree source
  else runProgram options.raw source

/-- Does with a program what the options ask for, and complains about a failure.
The exit code tells whether there was one. -/
def batch (options : Options) (source : Bytes) (console : Console) : Nat × Console :=
  match (perform options source).run console with
  | (.ok _, after) => (0, after)
  | (.error failure, after) => (1, after.complain failure.message)

end Juxta.Command
