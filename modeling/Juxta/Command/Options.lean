/-
# Command-line options

Options are single letters after a dash. Letters may share a dash, and the value
of an option is the rest of its argument or the next one. Arguments after the
options are files. All arguments are scanned before any option takes effect.
-/

import Juxta.Command.Path
import Juxta.Text.Quoted

namespace Juxta.Command

/-- The forms in which a result is dumped before it is printed. -/
inductive RawFormat
  | yaml | json | none
  deriving DecidableEq, Repr

namespace RawFormat

/-- The name of a form. -/
def name : RawFormat → String
  | yaml => "yaml"
  | json => "json"
  | none => "none"

/-- The form of a name. -/
def ofText? (text : Bytes) : Option RawFormat :=
  [yaml, json, none].find? fun format => utf8 format.name == text

end RawFormat

/-- What the command is asked to do. -/
structure Options where
  expression : Option Bytes := none
  showTokens : Bool := false
  showTree : Bool := false
  raw : RawFormat := .yaml
  prompt : Bool := false
  help : Bool := false
  files : List Bytes := []
  deriving DecidableEq, Repr

/-- Why the arguments were refused. The first two name the program as it was called. -/
inductive FlagError
  | unknownOption (program : Bytes) (letter : Char)
  | missingValue (program : Bytes) (letter : Char)
  | unknownFormat (text : Bytes)
  deriving DecidableEq, Repr

/-- The wording of an error. -/
def FlagError.message : FlagError → Bytes
  | unknownOption program letter =>
      program ++ utf8 ": unknown option -" ++ String.utf8EncodeChar letter
  | missingValue program letter =>
      program ++ utf8 ": expected argument for -" ++ String.utf8EncodeChar letter
  | unknownFormat text =>
      utf8 "unknown raw format " ++ Quoted.ofBytes text ++ utf8 " (want yaml, json or none)"

/-- An option as it was found, with its value if it takes one. -/
structure Flag where
  letter : Char
  value : Bytes
  deriving DecidableEq, Repr

/-- Whether a letter is an option, and then whether it takes a value. -/
def takesValue? (letter : Char) : Option Bool :=
  if ['e', 'r'].contains letter then some true
  else if ['a', 'h', 'i', 't'].contains letter then some false
  else none

/-- Scans the letters behind a dash. What is left is the option that waits for
its value in the next argument, if there is one. -/
def scanLetters (program : Bytes) : List Char → Except FlagError (List Flag × Option Char)
  | [] => .ok ([], none)
  | letter :: rest =>
      match takesValue? letter with
      | none => .error (.unknownOption program letter)
      | some false =>
          match scanLetters program rest with
          | .ok (flags, waiting) => .ok (⟨letter, []⟩ :: flags, waiting)
          | .error error => .error error
      | some true =>
          if rest.isEmpty then .ok ([], some letter)
          else .ok ([⟨letter, Utf8.encode rest⟩], none)

/-- Whether an argument ends the options and is the first file. -/
def isOperand (argument : Bytes) : Bool :=
  argument.head? != some Ascii.minus || argument == [Ascii.minus]

/-- Scans the arguments, of which the first may be the value that an option
waits for: the options and the files after them. -/
def scanArguments (program : Bytes) (waiting : Option Char) :
    List Bytes → Except FlagError (List Flag × List Bytes)
  | [] =>
      match waiting with
      | some letter => .error (.missingValue program letter)
      | none => .ok ([], [])
  | argument :: rest =>
      match waiting with
      | some letter =>
          match scanArguments program none rest with
          | .ok (flags, files) => .ok (⟨letter, argument⟩ :: flags, files)
          | .error error => .error error
      | none =>
          if isOperand argument then .ok ([], argument :: rest)
          else if argument == [Ascii.minus, Ascii.minus] then .ok ([], rest)
          else
            match scanLetters program (Utf8.charsPerByte argument.tail) with
            | .error error => .error error
            | .ok (flags, waiting) =>
                match scanArguments program waiting rest with
                | .ok (later, files) => .ok (flags ++ later, files)
                | .error error => .error error

/-- Lets options take effect, from left to right. A refused value comes with the
options as they stood. -/
def Options.update (options : Options) : List Flag → Except (FlagError × Options) Options
  | [] => .ok options
  | flag :: rest =>
      if flag.letter = 'r' then
        match RawFormat.ofText? flag.value with
        | some format => Options.update { options with raw := format } rest
        | none => .error (.unknownFormat flag.value, options)
      else if flag.letter = 'e' then
        Options.update { options with expression := some flag.value } rest
      else if flag.letter = 'a' then Options.update { options with showTree := true } rest
      else if flag.letter = 'h' then Options.update { options with help := true } rest
      else if flag.letter = 'i' then Options.update { options with prompt := true } rest
      else Options.update { options with showTokens := true } rest

/-- The options of a command line. -/
def Options.ofArguments (program : Bytes) (arguments : List Bytes) :
    Except (FlagError × Options) Options :=
  match scanArguments program none arguments with
  | .error error => .error (error, {})
  | .ok (flags, files) =>
      match Options.update {} flags with
      | .error error => .error error
      | .ok options => .ok { options with files := files }

/-- The name under which the command speaks of itself. -/
def commandName : Bytes := utf8 "nli"

/-- The help text for a program. -/
def usage (program : Bytes) : Bytes :=
  utf8 "Usage: " ++ Path.base program ++
    utf8 " [-t|-a] [-r yaml|json|none] [-e expr | file]\n       " ++ Path.base program ++
    utf8 (" -i\n\n" ++
      "  -e expr   evaluate expr instead of a file\n" ++
      "  -t        print the token stream\n" ++
      "  -a        print the parsed tree\n" ++
      "  -r fmt    raw dump format of the result (default yaml)\n" ++
      "  -i        interactive prompt (default when stdin is a terminal)\n" ++
      "  -h        this help\n")

/-- Where the prompt keeps its history: at a place of the user's choice, or in
the home directory. An empty setting counts as none. -/
def historyPath (chosen home : Option Bytes) : Bytes :=
  match chosen.filter (fun path => !path.isEmpty), home.filter (fun path => !path.isEmpty) with
  | some path, _ => path
  | none, some directory => Path.join directory (utf8 ".nli_history")
  | none, none => []

end Juxta.Command
