/-
Style trees from JSON. There are two ways to one: from data that was already
read (`Value.ofData`), and straight from a document (`Value.ofDocument?`),
which writes each member into its map as it comes and never builds the data in
between. Both leave a repeated key at its first place with its last value, and
both want every string and number of the document to have a value.
-/
import StyleTree.Style.Value
import StyleTree.Json.Data
import StyleTree.Json.Read

namespace StyleTree

open Json

-- ====================================================== from data

mutual

/-- The style value that data describes. -/
def Value.ofData : Data → Value
  | .null => .null
  | .bool flag => .bool flag
  | .number value => .number value
  | .string text => .text text
  | .array items => .array (valuesOfData items)
  | .object entries => .object (Entries.ofList (entriesOfData entries))
termination_by structural data => data

/-- The style value of each item. -/
def valuesOfData : List Data → List Value
  | [] => []
  | item :: rest => Value.ofData item :: valuesOfData rest
termination_by structural items => items

/-- The entries with their style values. -/
def entriesOfData : List (Text × Data) → List (Text × Value)
  | [] => []
  | entry :: rest => entryOfData entry :: entriesOfData rest
termination_by structural entries => entries

/-- One entry with its style value. -/
def entryOfData : Text × Data → Text × Value
  | (key, data) => (key, Value.ofData data)
termination_by structural entry => entry

end

/-- The style object that data describes, if the data is an object. -/
def Style.ofData? (data : Data) : Option Style := (Value.ofData data).object?

/-- The sheet that data describes, if the data is an object. -/
def Sheet.ofData? (data : Data) : Option Sheet :=
  (Style.ofData? data).map Sheet.ofStyle

-- ================================================= from a document

mutual

/-- The style value that a document describes; none if a string or number in it
has no value. -/
def Value.ofDocument? : Document → Option Value
  | .null => some .null
  | .bool flag => some (.bool flag)
  | .number value => value.toFloat?.map .number
  | .string pieces => (Json.text? pieces).map .text
  | .array items => (valuesOfItems? items).map .array
  | .object members => (writeMembers? [] members).map .object
termination_by structural document => document

/-- The style value of each item. -/
def valuesOfItems? : List Document → Option (List Value)
  | [] => some []
  | item :: rest => do
    let value ← Value.ofDocument? item
    let following ← valuesOfItems? rest
    return value :: following
termination_by structural items => items

/-- Writes the members into a style object, in order. -/
def writeMembers? (style : Style) : List (List Piece × Document) → Option Style
  | [] => some style
  | member :: rest => do
    let written ← writeMember? style member
    writeMembers? written rest
termination_by structural members => members

/-- Writes one member into a style object. -/
def writeMember? (style : Style) : List Piece × Document → Option Style
  | (key, document) => do
    let text ← Json.text? key
    let value ← Value.ofDocument? document
    return Entries.insert style text value
termination_by structural member => member

end

/-- The style object that a document describes; none also if the document is no
object. -/
def Style.ofDocument? (document : Document) : Option Style :=
  (Value.ofDocument? document).bind Value.object?

/-- The sheet that a document describes; none also if the document is no
object. -/
def Sheet.ofDocument? (document : Document) : Option Sheet :=
  (Style.ofDocument? document).map Sheet.ofStyle

-- ====================================================== from text

/-- Why a text gives no style tree. -/
inductive DecodeError where
  /-- The text is not the written form of a document that has values
  throughout. -/
  | malformed
  /-- The document is no object, where a style object or a sheet is wanted. -/
  | notAnObject
  deriving DecidableEq, Repr

/-- The wording of a decoding error. -/
def DecodeError.message : DecodeError → Text
  | malformed => "not a JSON document".toList
  | notAnObject => "expected a style object".toList

/-- How deep arrays and objects may be nested in the text of a style tree. -/
def depthLimit : Nat := 127

/-- Reads a style value. -/
def Value.decode (text : Text) : Except DecodeError Value :=
  match Document.ofText? text with
  | none => .error .malformed
  | some document =>
    if depthLimit < document.depth then .error .malformed
    else match Value.ofDocument? document with
    | none => .error .malformed
    | some value => .ok value

/-- Reads a style object. -/
def Style.decode (text : Text) : Except DecodeError Style := do
  match (← Value.decode text).object? with
  | some style => return style
  | none => throw .notAnObject

/-- Reads a sheet. -/
def Sheet.decode (text : Text) : Except DecodeError Sheet :=
  return Sheet.ofStyle (← Style.decode text)

end StyleTree
