/-
A build. The manifest is read, then every file that it names, in a fixed order;
the bundle is built from them; and only when all of that has succeeded is there
anything to write. So a build is a function from what can be read to either the
files to be written or the first fault. Paths in a manifest are relative to the
directory it lies in. A run is a build on a file system, followed by the
writing of its files.

A manifest may ask for a minifier that reads CSS properly. Such a minifier is
not part of this library; a build takes it as a parameter.
-/
import StyleTree.Build.Files
import StyleTree.Build.Manifest
import StyleTree.Style.Decode

namespace StyleTree

/-- Why a build writes nothing. -/
inductive BuildError where
  /-- No manifest was named. -/
  | usage
  | unreadableManifest (path : Text)
  | malformedManifest (path : Text)
  | unreadableSource (path : Text)
  | malformedSource (path : Text)
  | bundle (error : BundleError)
  deriving DecidableEq, Repr

/-- The wording of an error. -/
def BuildError.message : BuildError → Text
  | usage => "usage: fos-style-build <manifest.json>".toList
  | unreadableManifest path => "reading manifest ".toList ++ path
  | malformedManifest path => "parsing manifest ".toList ++ path
  | unreadableSource path => "reading ".toList ++ path
  | malformedSource path => "parsing ".toList ++ path
  | bundle error => error.message

/-- A manifest with the directory that its paths start from. -/
structure Project where
  root : Text
  manifest : Manifest
  deriving DecidableEq, Repr

namespace Project

-- ======================================================== reading

/-- Reads the manifest at a path. -/
def load (read : Text → Option Text) (path : Text) :
    Except BuildError Project :=
  match read path with
  | none => .error (.unreadableManifest path)
  | some text =>
    match Manifest.ofText? text with
    | none => .error (.malformedManifest path)
    | some manifest => .ok ⟨Path.parent path, manifest⟩

/-- Where the output goes. -/
def outDir (project : Project) : Text :=
  Path.join project.root project.manifest.outDir

/-- Reads and decodes a file that the manifest names. -/
def readSource {α : Type} (read : Text → Option Text) (project : Project)
    (decode : Text → Except DecodeError α) (file : Text) :
    Except BuildError α :=
  let path := Path.join project.root file
  match read path with
  | none => .error (.unreadableSource path)
  | some text => (decode text).mapError fun _ => .malformedSource path

/-- The token group of a file. -/
def readTokens (read : Text → Option Text) (project : Project)
    (source : TokenSource) : Except BuildError TokenGroup := do
  let tree ← project.readSource read Style.decode source.file
  return ⟨source.stem, tree, if source.kebabCase then .kebab else .verbatim⟩

/-- The sheet of a component. -/
def readComponent (read : Text → Option Text) (project : Project)
    (source : ComponentSource) : Except BuildError (Text × Sheet) := do
  let sheet ← project.readSource read Sheet.decode source.file
  return (source.name, sheet)

/-- The sheet of a domain, empty if the manifest names no file for it. -/
def readDomain (read : Text → Option Text) (project : Project) :
    Option Text → Except BuildError Sheet
  | some file => project.readSource read Sheet.decode file
  | none => .ok []

/-- Reads everything that the bundle is built from: components, tokens, and
then the other domains in their order. The first file that fails ends it. -/
def inputs (read : Text → Option Text) (project : Project) :
    Except BuildError BundleInputs := do
  let components ←
    project.manifest.components.mapM (project.readComponent read)
  let tokens ← project.manifest.tokens.mapM (project.readTokens read)
  let base ← project.readDomain read project.manifest.base
  let typography ← project.readDomain read project.manifest.typography
  let layout ← project.readDomain read project.manifest.layout
  let elements ← project.readDomain read project.manifest.elements
  let animation ← project.readDomain read project.manifest.animation
  let accessibility ← project.readDomain read project.manifest.accessibility
  return ⟨tokens, base, typography, layout, elements, animation, accessibility,
    components⟩

/-- The files that reading the inputs looks at, by the paths it uses. -/
def sources (project : Project) : List Text :=
  let manifest := project.manifest
  (manifest.components.map ComponentSource.file
    ++ manifest.tokens.map TokenSource.file
    ++ [manifest.base, manifest.typography, manifest.layout,
      manifest.elements, manifest.animation,
      manifest.accessibility].filterMap id).map (Path.join project.root)

-- ======================================================= building

/-- The minifier that a manifest asks for, given the one that reads CSS. -/
def minifier (structural : Minifier) (project : Project) : Minifier :=
  match project.manifest.minifier with
  | .whitespace => .whitespace
  | .lightning => structural

/-- The options that a manifest asks for. -/
def options (structural : Minifier) (project : Project) : AssembleOptions :=
  ⟨project.manifest.prettify,
    if project.manifest.strict then .strict else .lenient,
    project.minifier structural⟩

/-- The theme block, if the manifest asks for it. -/
def theme? (project : Project) (tokens : List TokenGroup) : Option Text :=
  if project.manifest.theme then some (TokenGroup.theme tokens) else none

/-- The name of a stylesheet file. -/
def cssFile (name : Text) : Text := name ++ ".css".toList

/-- The files of a bundle, in the order in which they are written: the domains,
the components, the theme block and the joint text. -/
def outputs (directory : Text) (bundle : Bundle) (theme : Option Text) :
    List (Text × Text) :=
  bundle.domains.map (fun (domain, css) =>
    (Path.join directory (cssFile domain.name), css)) ++
    bundle.components.map (fun (name, css) =>
      (Path.join (Path.join directory Bundle.componentsName) (cssFile name),
        css)) ++
    theme.toList.map (fun css =>
      (Path.join directory (cssFile "theme".toList), css)) ++
    [(Path.join directory (cssFile "bundle".toList), bundle.full)]

/-- Builds a project: the files to write. -/
def build (structural : Minifier) (read : Text → Option Text)
    (project : Project) : Except BuildError (List (Text × Text)) := do
  let inputs ← project.inputs read
  let bundle ←
    (Bundle.build (project.options structural) inputs).mapError .bundle
  return outputs project.outDir bundle (project.theme? inputs.tokens)

end Project

/-- Builds what the manifest named by the first argument describes; further
arguments do not matter. -/
def build (structural : Minifier) (read : Text → Option Text) :
    List Text → Except BuildError (List (Text × Text))
  | [] => .error .usage
  | path :: _ => do
    let project ← Project.load read path
    project.build structural read

-- ======================================================== running

/-- Why a run of the program fails. -/
inductive RunError where
  /-- There is nothing to write. -/
  | build (error : BuildError)
  /-- An output cannot be written. -/
  | write (error : WriteError)
  deriving DecidableEq, Repr

/-- The wording of an error. -/
def RunError.message : RunError → Text
  | build error => error.message
  | write error => error.message

/-- How a fault is reported. Names in it may run over several lines. -/
def RunError.report (error : RunError) : Text :=
  "Error: ".toList ++ error.message

/-- What a run of the program leaves behind. -/
structure Outcome where
  error : Option RunError
  /-- The file system after the run. -/
  files : Files
  deriving DecidableEq, Repr

namespace Outcome

/-- Zero if nothing failed. -/
def exitCode (outcome : Outcome) : Nat := if outcome.error.isSome then 1 else 0

/-- The first line of the report on a fault. -/
def errorLine (outcome : Outcome) : Option Text :=
  outcome.error.map fun error => error.report.firstLine

end Outcome

/-- Runs the program on a file system. A build that fails leaves it as it is;
an output that cannot be written ends the run with the outputs before it in
place. -/
def Files.run (structural : Minifier) (files : Files) (arguments : List Text) :
    Outcome :=
  match build structural files.read arguments with
  | .error error => ⟨some (.build error), files⟩
  | .ok outputs =>
    let (written, error) := files.writeAll outputs
    ⟨error.map .write, written⟩

end StyleTree
