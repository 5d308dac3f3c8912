/-
File paths as text. A path is its segments between slashes. A segment that is
empty or a single dot leads nowhere, except that a dot may be all of the front
of a path. Paths are joined and cut as they are written: what they are shown as
in messages keeps the spelling of the manifest, and only when a file is looked
up are idle segments dropped. Some texts are no paths of the file system at
all, because they are too long.
-/
import StyleTree.Text.Basic

namespace StyleTree.Path

/-- The texts between slashes. -/
def segments (path : Text) : List Text := path.splitOn '/'

/-- Whether a segment stays in the directory it is read in. -/
def isIdle (segment : Text) : Bool := segment.isEmpty || segment == ['.']

/-- Whether a path starts from the root of the file system. -/
def isAbsolute (path : Text) : Bool := path.head? == some '/'

/-- A path seen from a directory. An absolute path is itself, from anywhere;
the empty directory is the current one. -/
def join (directory path : Text) : Text :=
  if isAbsolute path || directory.isEmpty then path
  else if directory.getLast? == some '/' then directory ++ path
  else directory ++ '/' :: path

/-- Drops idle segments at the end, the segments being listed from the last to
the first. The first segment of a path is never dropped. -/
def dropIdle : List Text → List Text
  | [] => []
  | [first] => [first]
  | segment :: next :: rest =>
    if isIdle segment then dropIdle (next :: rest) else segment :: next :: rest

/-- The directory that a path lies in; the empty path if there is none or it is
the current one. -/
def parent (path : Text) : Text :=
  match dropIdle (segments path).reverse with
  | _ :: next :: rest =>
    match dropIdle (next :: rest) with
    | [[]] => ['/']
    | kept => ['/'].intercalate kept.reverse
  | _ => []

/-- The way to a path: its segments without the idle ones. That of an absolute
path starts at the root, an empty segment. Paths with one way name one file or
directory. -/
def steps (path : Text) : List Text :=
  let named := (segments path).filter (!isIdle ·)
  if isAbsolute path then [] :: named else named

/-- The one spelling of the file that a path names, without idle segments; none
if the path names a directory. -/
def file? (path : Text) : Option Text :=
  match (segments path).getLast? with
  | none => none
  | some last =>
    if isIdle last then none else some (['/'].intercalate (steps path))

/-- The greatest size of a segment, in bytes. -/
def segmentLimit : Nat := 255

/-- The greatest size of a path, in bytes. -/
def pathLimit : Nat := 4095

/-- Whether there can be a file or directory under a path: it holds no
character zero, which would end it, and keeps the limits as it is spelled. -/
def isNameable (path : Text) : Bool :=
  path.all (fun c => c.toNat != 0) && path.byteSize ≤ pathLimit &&
    (segments path).all fun segment => segment.byteSize ≤ segmentLimit

example : parent "styles/./main.json".toList = "styles".toList := by decide

example : parent "main.json".toList = [] := by decide

example : file? "styles//./base.json".toList
    = some "styles/base.json".toList := by decide

example : file? "styles/".toList = none := by decide

example : join "styles".toList "base.json".toList
    = "styles/base.json".toList := by decide

end StyleTree.Path
