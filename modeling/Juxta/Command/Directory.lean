/-
# Directories

A directory is what a command can read of the files around it: their paths and
contents. Names are looked up component by component, as the operating system
does, so a name can fail in three ways.
-/

import Juxta.Command.Path

namespace Juxta

/-- The files of a directory and of the directories in it. -/
structure Directory where
  files : List (List Bytes × Bytes)

/-- Why a file could not be read. -/
inductive FileError
  | missing (name : Bytes)
  | notDirectory (name : Bytes)
  | isDirectory (name : Bytes)
  deriving DecidableEq, Repr

/-- The wording of an error. -/
def FileError.message : FileError → Bytes
  | missing name => utf8 "open " ++ name ++ utf8 ": no such file or directory"
  | notDirectory name => utf8 "open " ++ name ++ utf8 ": not a directory"
  | isDirectory name => utf8 "read " ++ name ++ utf8 ": is a directory"

namespace Directory

/-- A directory of files that are given by their names. -/
def ofList (files : List (Bytes × Bytes)) : Directory :=
  ⟨files.map fun file => (Path.components file.1, file.2)⟩

/-- The content of the file at a path. -/
def content? (directory : Directory) (path : List Bytes) : Option Bytes :=
  directory.files.lookup path

/-- Whether a path leads to a file or to a directory that holds one. -/
def holds (directory : Directory) (path : List Bytes) : Bool :=
  directory.files.any fun file => path.isPrefixOf file.1

/-- Follows the components of a name from a path inside the directory. Above the
directory lie other directories, of which nothing is known; `none` stands for
them. -/
def follow (directory : Directory) (name : Bytes) :
    Option (List Bytes) → List Bytes → Except FileError Bytes
  | none, [] => .error (.isDirectory name)
  | none, component :: rest =>
      if component.isEmpty || component == utf8 "." || component == utf8 ".." then
        follow directory name none rest
      else .error (.missing name)
  | some path, [] =>
      match directory.content? path with
      | some content => .ok content
      | none => .error (.isDirectory name)
  | some path, component :: rest =>
      if (directory.content? path).isSome then .error (.notDirectory name)
      else if component.isEmpty || component == utf8 "." then
        follow directory name (some path) rest
      else if component == utf8 ".." then
        follow directory name (if path.isEmpty then none else some path.dropLast) rest
      else if directory.holds (path ++ [component]) then
        follow directory name (some (path ++ [component])) rest
      else .error (.missing name)

/-- The content of a named file. -/
def read (directory : Directory) (name : Bytes) : Except FileError Bytes :=
  if name.isEmpty then .error (.missing name)
  else follow directory name (if Path.isRooted name then none else some []) (Path.components name)

end Directory

end Juxta
