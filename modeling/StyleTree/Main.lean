/-
The command line. It reads the manifest and the files that the manifest names,
hands their contents to the build, and writes what comes back or reports the
fault. No decision is taken here.
-/
import StyleTree.Build.Run

namespace StyleTree

/-- The content of a file, if it can be read. -/
def readFile? (path : Text) : IO (Option Text) := do
  try
    return some (← IO.FS.readFile (String.ofList path)).toList
  catch _ =>
    return none

/-- Reads the files at some paths. -/
def readFiles (paths : List Text) : IO (Entries Text) := do
  let mut found : Entries Text := []
  for path in paths do
    if let some content ← readFile? path then
      found := Entries.insert found path content
  return found

/-- The files that a build may look at: the manifest, and what it names if it
can be understood. -/
def gather (arguments : List Text) : IO (Entries Text) := do
  let manifest ← readFiles (arguments.take 1)
  match arguments.head?.map (Project.load (Entries.get? manifest)) with
  | some (.ok project) =>
    return Entries.extend manifest (← readFiles project.sources)
  | _ => return manifest

/-- Writes a file and the directories that it lies in; says what failed if that
does not succeed. -/
def writeFile (path content : Text) : IO (Option WriteError) := do
  let directory := Path.parent path
  try
    unless directory.isEmpty do
      IO.FS.createDirAll (String.ofList directory)
  catch _ =>
    return some (.directory directory)
  try
    IO.FS.writeFile (String.ofList path) (String.ofList content)
  catch _ =>
    return some (.file path)
  return none

/-- Reports a fault; its exit code. -/
def fail (error : RunError) : IO UInt32 := do
  IO.eprintln (String.ofList error.report)
  return 1

/-- Stands in for a minifier that reads CSS, which the command line has none
of. -/
def noStructuralMinifier : Minifier :=
  fun _ => .error (.rejected "no such minifier in this program".toList)

end StyleTree

open StyleTree

/-- The program: exit code 0 after writing all outputs, 1 after a fault. -/
def main (arguments : List String) : IO UInt32 := do
  let arguments := arguments.map String.toList
  let files ← gather arguments
  match build noStructuralMinifier (Entries.get? files) arguments with
  | .ok outputs =>
    for (path, content) in outputs do
      if let some error ← writeFile path content then
        return ← fail (.write error)
    return 0
  | .error error => fail (.build error)
