/-
The style tree: what a designer writes. A value is plain (text, number,
boolean, list), null, or a style object again; a style object maps keys to
values in the order of writing; a sheet maps selectors to style objects. Keys
carry no type here: whether one names a property, a nested selector or a
condition is read off its text later.
-/
import StyleTree.Entries

namespace StyleTree

/-- A value under a key of a style object. The entries of an object are an
`Entries Value`. -/
inductive Value where
  | null
  | bool (flag : Bool)
  | number (value : Float)
  | text (value : Text)
  | array (items : List Value)
  | object (entries : List (Text × Value))

/-- A style object: its entries in order. -/
abbrev Style := Entries Value

/-- Selectors with their style objects, in order. -/
abbrev Sheet := Entries Style

namespace Value

/-- Whether a value says "not set". -/
def isNull : Value → Bool
  | null => true
  | _ => false

/-- The entries of an object. -/
def object? : Value → Option Style
  | object entries => some entries
  | _ => none

/-- The text of a value that is one. -/
def text? : Value → Option Text
  | text value => some value
  | _ => none

end Value

/-- The reserved key under which a style object names its classes. -/
def classNameKey : Text := "className".toList

/-- The reserved key under which entries for the enclosing selector itself may
stand. -/
def selfKey : Text := "self".toList

/-- Reads a style object as a sheet: its keys are selectors, and an entry that
is no object cannot carry rules and is left out. -/
def Sheet.ofStyle (style : Style) : Sheet :=
  Entries.ofList (style.filterMap fun entry =>
    entry.2.object?.map fun body => (entry.1, body))

end StyleTree
