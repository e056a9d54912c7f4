/-
# Paths

Paths are byte strings with slashes between their components. The functions here
work on the text alone and look at no file.
-/

import Juxta.Text.Bytes

namespace Juxta.Path

/-- The components of a path, empty ones included. -/
def components (path : Bytes) : List Bytes := Bytes.split Ascii.slash path

/-- The last component of a path. A path of slashes alone is a slash, and no path
at all is the current directory. -/
def base (path : Bytes) : Bytes :=
  if path.isEmpty then utf8 "."
  else
    match (components path).reverse.find? fun component => !component.isEmpty with
    | some component => component
    | none => [Ascii.slash]

/-- Whether a path starts at the root. -/
def isRooted (path : Bytes) : Bool := path.head? == some Ascii.slash

/-- Adds a component to a path that is held last component first. Dots vanish,
and a double dot cancels the component before it. Above the root there is
nothing but the root. -/
def addComponent (rooted : Bool) (reversed : List Bytes) (component : Bytes) : List Bytes :=
  if component.isEmpty || component == utf8 "." then reversed
  else if component == utf8 ".." then
    match reversed with
    | [] => if rooted then [] else [component]
    | last :: rest => if last == utf8 ".." then component :: reversed else rest
  else component :: reversed

/-- The shortest path that names the same thing, as far as the text tells. -/
def clean (path : Bytes) : Bytes :=
  let rooted := isRooted path
  let reversed := (components path).foldl (addComponent rooted) []
  let text := Bytes.join [Ascii.slash] reversed.reverse
  if rooted then Ascii.slash :: text
  else if text.isEmpty then utf8 "."
  else text

/-- A name inside a directory. -/
def join (directory name : Bytes) : Bytes := clean (directory ++ Ascii.slash :: name)

end Juxta.Path
