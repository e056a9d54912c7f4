/-
# The history of the prompt

The prompt remembers the programs it was given, one line each. It keeps a
limited number of them and does not add a program twice in a row.
-/

import Juxta.Command.Lines
import Juxta.Text.Utf8

namespace Juxta.Command

/-- The programs of the prompt, the oldest first. -/
structure History where
  entries : List Bytes
  deriving DecidableEq, Repr

namespace History

/-- The largest number of entries. -/
def limit : Nat := 1000

/-- The last entries, as many as are kept. -/
def recent (entries : List Bytes) : List Bytes := entries.drop (entries.length - limit)

/-- Reads a history file. Reading ends at the first line that is too long for
the buffer or is not UTF-8. -/
def ofText (text : Bytes) : History :=
  ⟨recent (((Line.split text).takeWhile fun line => !line.isCut && Utf8.isValid line.text).map
    Line.text)⟩

/-- Adds an entry, unless it is the last one already. -/
def add (history : History) (entry : Bytes) : History :=
  if history.entries.getLast? = some entry then history
  else ⟨recent (history.entries ++ [entry])⟩

/-- The text of a history file. -/
def text (history : History) : Bytes :=
  history.entries.flatMap fun entry => entry ++ [Ascii.newline]

/-- A program as an entry: its lines become one. -/
def entryOf (source : Bytes) : Bytes :=
  source.map fun byte => if byte = Ascii.newline then Ascii.space else byte

end History

end Juxta.Command
