/-
A file system as a map from files to their texts. Paths that differ only in
idle segments name one file, so files are kept under one spelling of their path
and every access goes through `Path.file?`. Directories are not kept: one
exists as long as a file lies in it, and it is made when the first file is
written there.

A write fails where a file stands in the way of a directory, or a directory in
the way of the file. Several writes are done one after the other and end at the
first that fails; what was written before it stays.
-/
import StyleTree.Build.Path
import StyleTree.Entries

namespace StyleTree

/-- Files with their contents, each under the normal spelling of its path. -/
abbrev Files := Entries Text

/-- Why a file cannot be written. -/
inductive WriteError where
  /-- The directory that it would lie in cannot be made. -/
  | directory (path : Text)
  /-- The directory is there, but there cannot be a file of this name in it. -/
  | file (path : Text)
  deriving DecidableEq, Repr

/-- The wording of an error. -/
def WriteError.message : WriteError → Text
  | directory path => "creating ".toList ++ path
  | file path => "writing ".toList ++ path

namespace Files

/-- The files under some paths; a path that names no file is left out. -/
def ofList (contents : List (Text × Text)) : Files :=
  Entries.ofList (contents.filterMap fun (path, content) =>
    (Path.file? path).map (·, content))

-- ======================================================== reading

/-- The content of the file at a path. -/
def read (files : Files) (path : Text) : Option Text :=
  if Path.isNameable path then (Path.file? path).bind (Entries.get? files)
  else none

/-- Whether a file lies in the directory at a path or in one of its
directories. -/
def isDirectory (files : Files) (path : Text) : Bool :=
  (Entries.keys files).any fun file =>
    (Path.steps path).isPrefixOf (Path.steps file)
      && Path.steps path != Path.steps file

/-- Whether the directory at a path is there or can be made: no file stands at
it or on the way to it. The empty path is the current directory, which is
always there. -/
def admitsDirectory (files : Files) (path : Text) : Bool :=
  path.isEmpty || (Path.isNameable path && (Entries.keys files).all fun file =>
    !(Path.steps file).isPrefixOf (Path.steps path))

-- ======================================================== writing

/-- Writes a file, and makes the directory that it lies in if there is none. -/
def write (files : Files) (path content : Text) : Except WriteError Files :=
  if !admitsDirectory files (Path.parent path) then
    .error (.directory (Path.parent path))
  else if !Path.isNameable path || isDirectory files path then
    .error (.file path)
  else
    match Path.file? path with
    | some file => .ok (Entries.insert files file content)
    | none => .error (.file path)

/-- Writes several files until one fails: the files after that, and the fault
if there was one. -/
def writeAll : Files → List (Text × Text) → Files × Option WriteError
  | files, [] => (files, none)
  | files, (path, content) :: rest =>
    match write files path content with
    | .ok written => writeAll written rest
    | .error error => (files, some error)

/-- The files that are not in `before` or have another content there, by the
order of their paths. -/
def changedSince (before after : Files) : List (Text × Text) :=
  let changed := after.filter fun file =>
    Entries.get? before file.1 != some file.2
  changed.mergeSort fun a b => a.1.notAfter b.1

end Files

end StyleTree
