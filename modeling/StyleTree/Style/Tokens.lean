/-
Design tokens. A token tree nests names; flattening spells the path to every
leaf as one custom property name, the parts joined by hyphens behind the
group's stem, so `color-` with `neutral` over `100` gives
`--color-neutral-100`. A key that starts with a digit is a shade or a step and
not a word: it is kept as it is written. Where two paths come out as one name,
the later value wins and the earlier place is kept, inside a group and between
groups.
-/
import StyleTree.Style.Property

namespace StyleTree

/-- Custom property names with their values, in order. -/
abbrev CustomProperties := Entries Value

/-- How the keys of a token tree are spelled: by a formatter, or in kebab case,
or as they are. -/
inductive KeySpelling where
  | verbatim
  | kebab
  | custom (format : Text → Text)

/-- A token tree with the stem that its names start with. -/
structure TokenGroup where
  stem : Text
  tree : Style
  spelling : KeySpelling

namespace KeySpelling

/-- The spelling of a key. The digits that exempt a key from it are the ten of
ASCII. -/
def apply (spelling : KeySpelling) (key : Text) : Text :=
  if (key.head?.map Char.isDigit).getD false then key
  else match spelling with
  | verbatim => key
  | kebab => kebabCase key
  | custom format => format key

end KeySpelling

-- ====================================================== flattening

mutual

/-- Writes the leaves of a token tree whose names start with `stem`. -/
def flattenInto (spelling : KeySpelling) (stem : Text)
    (properties : CustomProperties) : List (Text × Value) → CustomProperties
  | [] => properties
  | entry :: rest =>
    flattenInto spelling stem (flattenEntry spelling stem properties entry)
      rest
termination_by structural tree => tree

/-- Writes the leaves under one entry. -/
def flattenEntry (spelling : KeySpelling) (stem : Text)
    (properties : CustomProperties) : Text × Value → CustomProperties
  | (key, value) =>
    flattenValue spelling (stem ++ spelling.apply key) properties value
termination_by structural entry => entry

/-- Writes the leaves of the value that a path of keys leads to. An object is a
longer path, null is no leaf, and any other value is written under the name of
the path. -/
def flattenValue (spelling : KeySpelling) (path : Text)
    (properties : CustomProperties) : Value → CustomProperties
  | .null => properties
  | .object tree => flattenInto spelling (path ++ ['-']) properties tree
  | .bool flag => Entries.insert properties ('-' :: '-' :: path) (.bool flag)
  | .number value =>
    Entries.insert properties ('-' :: '-' :: path) (.number value)
  | .text value => Entries.insert properties ('-' :: '-' :: path) (.text value)
  | .array items =>
    Entries.insert properties ('-' :: '-' :: path) (.array items)
termination_by structural value => value

end

/-- The custom properties of one group. -/
def TokenGroup.flatten (group : TokenGroup) : CustomProperties :=
  flattenInto group.spelling group.stem [] group.tree

/-- The custom properties of several groups, later ones winning. -/
def TokenGroup.flattenAll (groups : List TokenGroup) : CustomProperties :=
  groups.foldl (fun properties group =>
    Entries.extend properties group.flatten) []

end StyleTree
