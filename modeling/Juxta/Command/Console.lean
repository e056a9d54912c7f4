/-
# The console

A command writes its results in pieces and its complaints line by line. The
output may be bounded: a piece that does not fit is not written at all, and the
write fails.
-/

import Juxta.Eval.Run

namespace Juxta.Command

/-- What has been written: the pieces of output in order, how many bytes the
output still takes, if it is bounded, and the complaints. -/
structure Console where
  pieces : List Bytes
  room : Option Nat
  complaints : Bytes
  isColored : Bool
  deriving DecidableEq, Repr

namespace Console

/-- A console before anything is written. -/
def initial (room : Option Nat) (isColored : Bool) : Console := ⟨[], room, [], isColored⟩

/-- Everything that was written. -/
def output (console : Console) : Bytes := console.pieces.flatten

/-- The failure of a bounded output. -/
def full : Bytes := utf8 "sink full"

/-- Writes a piece, if there is room for all of it. -/
def put? (console : Console) (piece : Bytes) : Except Bytes Console :=
  match console.room with
  | none => .ok { console with pieces := console.pieces ++ [piece] }
  | some room =>
      if piece.length ≤ room then
        .ok { console with pieces := console.pieces ++ [piece], room := some (room - piece.length) }
      else .error full

/-- Writes a piece that is not counted against the bound. -/
def echo (console : Console) (piece : Bytes) : Console :=
  { console with pieces := console.pieces ++ [piece] }

/-- Writes a piece if there is room, and otherwise does nothing. -/
def offer (console : Console) (piece : Bytes) : Console :=
  match console.put? piece with
  | .ok next => next
  | .error _ => console

/-- A text in one of the eight colours of a terminal. -/
def paint (console : Console) (color : Nat) (text : Bytes) : Bytes :=
  if console.isColored then
    Ascii.escape :: utf8 "[3" ++ Numeral.ofNat color ++ utf8 "m" ++ text ++
      Ascii.escape :: utf8 "[0m"
  else text

/-- Adds a complaint, in red. -/
def complain (console : Console) (message : Bytes) : Console :=
  { console with
    complaints := console.complaints ++ console.paint 1 (utf8 "[Error] " ++ message) ++
      [Ascii.newline] }

/-- Writes a piece as a step of a computation. -/
def write (piece : Bytes) : ExceptT Bytes (StateM Console) Unit :=
  ExceptT.mk fun console =>
    match console.put? piece with
    | .ok next => (.ok (), next)
    | .error text => (.error text, console)

end Console

end Juxta.Command
