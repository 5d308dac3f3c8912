/-
What a JSON document says. Strings have become texts, numbers doubles, and an
object is a map: a repeated key keeps its first place and takes its last value.
A document has no data when anything in it has no value, even where a later
member would have replaced it.
-/
import StyleTree.Entries
import StyleTree.Json.Document

namespace StyleTree.Json

/-- The data of a document. -/
inductive Data where
  | null
  | bool (flag : Bool)
  | number (value : Float)
  | string (text : Text)
  | array (items : List Data)
  | object (entries : List (Text × Data))

mutual

/-- The data of a document; none if a string or number in it has no value. -/
def Data.ofDocument? : Document → Option Data
  | .null => some .null
  | .bool flag => some (.bool flag)
  | .number value => value.toFloat?.map .number
  | .string pieces => (text? pieces).map .string
  | .array items => (dataOfItems? items).map .array
  | .object members =>
    (dataOfMembers? members).map fun pairs => .object (Entries.ofList pairs)
termination_by structural document => document

/-- The data of each item. -/
def dataOfItems? : List Document → Option (List Data)
  | [] => some []
  | item :: rest => do
    let data ← Data.ofDocument? item
    let following ← dataOfItems? rest
    return data :: following
termination_by structural items => items

/-- The members with their keys as texts and their values as data, repeated
keys included. -/
def dataOfMembers? : List (List Piece × Document) → Option (List (Text × Data))
  | [] => some []
  | member :: rest => do
    let entry ← dataOfMember? member
    let following ← dataOfMembers? rest
    return entry :: following
termination_by structural members => members

/-- One member with its key as a text and its value as data. -/
def dataOfMember? : List Piece × Document → Option (Text × Data)
  | (key, value) => do
    let text ← text? key
    let data ← Data.ofDocument? value
    return (text, data)
termination_by structural member => member

end

end StyleTree.Json
