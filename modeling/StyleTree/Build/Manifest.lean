/-
The build manifest: a JSON object that names the output directory, the options,
and the files with the tokens and the sheets. A field that is missing has its
default, a field that is unknown is passed over whatever it holds, and a known
field must come at most once and have its type. Where a file with tokens or a
component is described, an array of the fields' values in their order is as
good as an object.
-/
import StyleTree.Bundle
import StyleTree.Json.Read

namespace StyleTree

open Json

/-- The minifiers that a manifest can name. -/
inductive MinifierName where
  | whitespace
  | lightning
  deriving DecidableEq, Repr

/-- A file with a token tree. -/
structure TokenSource where
  stem : Text
  file : Text
  kebabCase : Bool
  deriving DecidableEq, Repr

/-- A file with the sheet of a component. -/
structure ComponentSource where
  name : Text
  file : Text
  deriving DecidableEq, Repr

/-- What a manifest says. File paths are as written there. -/
structure Manifest where
  outDir : Text
  prettify : Bool
  strict : Bool
  minifier : MinifierName
  theme : Bool
  tokens : List TokenSource
  base : Option Text
  typography : Option Text
  layout : Option Text
  elements : Option Text
  animation : Option Text
  accessibility : Option Text
  components : List ComponentSource
  deriving DecidableEq, Repr

namespace Manifest

-- ================================================= values of fields

/-- A boolean. -/
def bool? : Document → Option Bool
  | .bool flag => some flag
  | _ => none

/-- A text. -/
def string? : Document → Option Text
  | .string pieces => Json.text? pieces
  | _ => none

/-- A text, or null for none. -/
def optional? : Document → Option (Option Text)
  | .null => some none
  | document => (string? document).map some

/-- An array of things that are read alike. -/
def list? {α : Type} (item? : Document → Option α) : Document → Option (List α)
  | .array items => items.mapM item?
  | _ => none

/-- The minifier with a name. -/
def minifierNamed? (name : Text) : Option MinifierName :=
  if name = "whitespace".toList then some .whitespace
  else if name = "lightning".toList then some .lightning
  else none

/-- A minifier, by its name or by an object with the name as its only key and
null under it. -/
def minifier? : Document → Option MinifierName
  | .string pieces => (Json.text? pieces).bind minifierNamed?
  | .object [(key, .null)] => (Json.text? key).bind minifierNamed?
  | _ => none

-- ============================================================ fields

/-- The members of an object whose keys are all texts. -/
def fields? : List (List Piece × Document) → Option (List (Text × Document)) :=
  List.mapM fun member => (Json.text? member.1).map fun key => (key, member.2)

/-- The values of a field, one for each time it comes. -/
def valuesOf (fields : List (Text × Document)) (name : String) :
    List Document :=
  (fields.filter (·.1 = name.toList)).map Prod.snd

/-- Reads a field that must be there. -/
def required? {α : Type} (fields : List (Text × Document)) (name : String)
    (value? : Document → Option α) : Option α :=
  match valuesOf fields name with
  | [document] => value? document
  | _ => none

/-- Reads a field that may be missing. -/
def defaulted? {α : Type} (fields : List (Text × Document)) (name : String)
    (value? : Document → Option α) (default : α) : Option α :=
  match valuesOf fields name with
  | [] => some default
  | [document] => value? document
  | _ => none

-- =========================================================== records

/-- A file with tokens. The keys are in kebab case unless the manifest says
otherwise. -/
def tokenSource? : Document → Option TokenSource
  | .object members => do
    let fields ← fields? members
    let stem ← required? fields "prefix" string?
    let file ← required? fields "file" string?
    let kebabCase ← defaulted? fields "kebab_case" bool? true
    return ⟨stem, file, kebabCase⟩
  | .array [stem, file] => return ⟨← string? stem, ← string? file, true⟩
  | .array [stem, file, kebabCase] =>
    return ⟨← string? stem, ← string? file, ← bool? kebabCase⟩
  | _ => none

/-- A file with the sheet of a component. -/
def componentSource? : Document → Option ComponentSource
  | .object members => do
    let fields ← fields? members
    let name ← required? fields "name" string?
    let file ← required? fields "file" string?
    return ⟨name, file⟩
  | .array [name, file] => return ⟨← string? name, ← string? file⟩
  | _ => none

/-- The manifest that a document is. -/
def ofDocument? : Document → Option Manifest
  | .object members => do
    let fields ← fields? members
    let outDir ← defaulted? fields "out_dir" string? "dist".toList
    let prettify ← defaulted? fields "prettify" bool? false
    let strict ← defaulted? fields "strict" bool? false
    let minifier ← defaulted? fields "minifier" minifier? .whitespace
    let theme ← defaulted? fields "theme" bool? false
    let tokens ← defaulted? fields "tokens" (list? tokenSource?) []
    let base ← defaulted? fields "base" optional? none
    let typography ← defaulted? fields "typography" optional? none
    let layout ← defaulted? fields "layout" optional? none
    let elements ← defaulted? fields "elements" optional? none
    let animation ← defaulted? fields "animation" optional? none
    let accessibility ← defaulted? fields "accessibility" optional? none
    let components ← defaulted? fields "components" (list? componentSource?) []
    return ⟨outDir, prettify, strict, minifier, theme, tokens, base,
      typography, layout, elements, animation,
      accessibility, components⟩
  | _ => none

/-- Reads a manifest. -/
def ofText? (text : Text) : Option Manifest :=
  (Document.ofText? text).bind ofDocument?

end Manifest

end StyleTree
