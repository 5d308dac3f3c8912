/-
The CSS spelling of property names and values. A name is written in camel case
and printed in kebab case; a value that stands alone is a length in pixels if
it is a number other than zero; the numbers of a list stay bare. Null and
objects have no CSS form, and neither has a list with an object anywhere in it.
-/
import StyleTree.Style.Value
import StyleTree.Decimal.Shortest
import StyleTree.Text.Uppercase

namespace StyleTree

-- ========================================================= names

/-- Puts a hyphen before every upper case letter and makes it lower case. -/
def hyphenate (name : Text) : Text :=
  name.flatMap fun c =>
    match lowerOfUpper? c with
    | some lower => '-' :: lower
    | none => [c]

/-- The kebab case form of a name. The two hyphens of a custom property stay in
front of it. A vendor name starts with a capital and so comes out with its
leading hyphen. -/
def kebabCase : Text → Text
  | '-' :: '-' :: name => '-' :: '-' :: hyphenate name
  | name => hyphenate name

/-- Each character is spelled on its own. -/
theorem hyphenate_append (a b : Text) :
    hyphenate (a ++ b) = hyphenate a ++ hyphenate b :=
  List.flatMap_append ..

/-- A character that is no capital stays as it is. -/
theorem hyphenate_cons_of_eq_none {c : Char} (hc : lowerOfUpper? c = none)
    (rest : Text) : hyphenate (c :: rest) = c :: hyphenate rest := by
  unfold hyphenate
  rw [List.flatMap_cons, hc]
  rfl

/-- A capital becomes a hyphen and its small letter. -/
theorem hyphenate_cons_of_eq_some {c : Char} {lower : Text}
    (hc : lowerOfUpper? c = some lower) (rest : Text) :
    hyphenate (c :: rest) = '-' :: (lower ++ hyphenate rest) := by
  unfold hyphenate
  rw [List.flatMap_cons, hc]
  rfl

/-- The two hyphens in front of a name make no difference. -/
theorem kebabCase_eq_hyphenate (name : Text) :
    kebabCase name = hyphenate name := by
  have hhyphen : lowerOfUpper? '-' = none := by decide
  unfold kebabCase
  split
  · rw [hyphenate_cons_of_eq_none hhyphen, hyphenate_cons_of_eq_none hhyphen]
  · rfl

-- ======================================================== values

/-- The word for a boolean. -/
def boolText (flag : Bool) : Text :=
  if flag then "true".toList else "false".toList

mutual

/-- What a value adds to the list it stands in: nothing if it is null, else one
word; none for an object. -/
def Value.words? : Value → Option (List Text)
  | .null => some []
  | .object _ => none
  | .bool flag => some [boolText flag]
  | .number value => some [numberText value]
  | .text value => some [value]
  | .array items =>
    (wordsOfItems? items).map fun words => [[' '].intercalate words]
termination_by structural value => value

/-- The words of a list, in order; none if there is an object among them. -/
def wordsOfItems? : List Value → Option (List Text)
  | [] => some []
  | item :: rest => do
    let words ← item.words?
    let following ← wordsOfItems? rest
    return words ++ following
termination_by structural items => items

end

/-- The CSS text of a property value. -/
def Value.css? : Value → Option Text
  | .null => none
  | .object _ => none
  | .bool flag => some (boolText flag)
  | .number value =>
    some (if value == 0 then ['0'] else numberText value ++ "px".toList)
  | .text value => some value
  | .array items =>
    (wordsOfItems? items).map fun words => [' '].intercalate words

example : kebabCase "backgroundColor".toList
    = "background-color".toList := by decide

example : kebabCase "WebkitTransition".toList
    = "-webkit-transition".toList := by decide

example : kebabCase "--Brand".toList = "---brand".toList := by decide

end StyleTree
