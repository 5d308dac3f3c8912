/-
From lexemes to a document. The reader takes the lexemes one by one and holds
two things: what may come next, and the arrays and objects that are still open
around that place. There is no recursion besides the fold over the lexemes, so
nesting costs no stack and every text ends the reading, with a document exactly
when it holds one and nothing else.
-/
import StyleTree.Json.Lexeme

namespace StyleTree.Json

/-- A container that is still open, with what it holds so far in reverse order:
an array, or an object that has read a key and waits for its value. -/
inductive Frame where
  | items (done : List Document)
  | members (done : List (List Piece × Document)) (key : List Piece)

/-- What may come next, inside which open containers. -/
inductive Reading where
  /-- A value must come. -/
  | value (around : List Frame)
  /-- An array was just opened: a value or its end. -/
  | firstItem (around : List Frame)
  /-- An object was just opened: a key or its end. -/
  | firstKey (around : List Frame)
  /-- A comma was read in an object: a key must come. -/
  | key (done : List (List Piece × Document)) (around : List Frame)
  /-- A key was read: a colon must come. -/
  | colon (done : List (List Piece × Document)) (key : List Piece)
    (around : List Frame)
  /-- A value is complete: the container around it goes on or ends, or the text
  ends. -/
  | after (value : Document) (around : List Frame)

namespace Reading

/-- A value begins, or is there at once. -/
def begin? (around : List Frame) : Lexeme → Option Reading
  | .scalar document => some (.after document around)
  | .string pieces => some (.after (.string pieces) around)
  | .openArray => some (.firstItem around)
  | .openObject => some (.firstKey around)
  | _ => none

/-- Takes one lexeme; nothing if it cannot stand here. -/
def step? : Reading → Lexeme → Option Reading
  | .value around, lexeme => begin? around lexeme
  | .firstItem around, .closeArray => some (.after (.array []) around)
  | .firstItem around, lexeme => begin? (.items [] :: around) lexeme
  | .firstKey around, .closeObject => some (.after (.object []) around)
  | .firstKey around, .string name => some (.colon [] name around)
  | .key done around, .string name => some (.colon done name around)
  | .colon done name around, .colon =>
    some (.value (.members done name :: around))
  | .after document (.items done :: around), .comma =>
    some (.value (.items (document :: done) :: around))
  | .after document (.items done :: around), .closeArray =>
    some (.after (.array (document :: done).reverse) around)
  | .after document (.members done name :: around), .comma =>
    some (.key ((name, document) :: done) around)
  | .after document (.members done name :: around), .closeObject =>
    some (.after (.object ((name, document) :: done).reverse) around)
  | _, _ => none

/-- The document that was read, if the reading may end here. -/
def finish? : Reading → Option Document
  | .after document [] => some document
  | _ => none

end Reading

/-- The document that a text is the written form of. -/
def Document.ofText? (text : Text) : Option Document := do
  let lexemes ← lexemes? text
  let reading ← lexemes.foldlM Reading.step? (.value [])
  reading.finish?

end StyleTree.Json
