/-
# Lines

Input is taken line by line through a buffer. A line ends at a line feed, and a
carriage return before it is dropped; what stands after the last line feed is a
line too, unless it is empty. A line that fills the buffer is cut there.
-/

import Juxta.Text.Bytes

namespace Juxta.Command

/-- The number of bytes that the buffer holds. -/
def bufferSize : Nat := 4096

/-- A line of input, and whether it was cut because it filled the buffer. -/
structure Line where
  text : Bytes
  isCut : Bool
  deriving DecidableEq, Repr

namespace Line

/-- A text that is held last byte first, without a carriage return at its end. -/
def dropReturn (reversed : Bytes) : Bytes :=
  match reversed with
  | [] => []
  | byte :: rest => if byte = Ascii.carriageReturn then rest else reversed

/-- The lines of a text, of which the last `size` bytes were read before and are
held last byte first. A carriage return where the buffer is full is kept for the
next line, because a line feed may follow it. -/
def splitFrom (size : Nat) (reversed : Bytes) : Bytes → List Line
  | [] => if reversed.isEmpty then [] else [⟨reversed.reverse, false⟩]
  | byte :: rest =>
      if byte = Ascii.newline then
        ⟨(dropReturn reversed).reverse, false⟩ :: splitFrom 0 [] rest
      else if size + 1 = bufferSize then
        if byte = Ascii.carriageReturn then ⟨reversed.reverse, true⟩ :: splitFrom 1 [byte] rest
        else ⟨(byte :: reversed).reverse, true⟩ :: splitFrom 0 [] rest
      else splitFrom (size + 1) (byte :: reversed) rest

/-- The lines of a text. -/
def split (text : Bytes) : List Line := splitFrom 0 [] text

end Line

end Juxta.Command
