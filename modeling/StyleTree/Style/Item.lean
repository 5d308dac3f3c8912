/-
What the entries of a style object mean. The role of an entry follows from its
key, and then from whether its value is an object:

- the class name key and null values mean nothing here;
- a conditional key guards its object;
- the `self` key adds nothing, its entries belong to the enclosing selector, so
  they take its place;
- another at-rule is not supported;
- any other key nests its object under a selector, or declares a property if
  its value is plain.

A conditional key without a condition is bare. Inside it, keys that open with a
bracket are the conditions, each of them as if it followed the keyword. What
else stands there holds whenever the keyword alone does, which only `@media`
can express; under the other keywords it is left out.

The result is a tree of `Item`s in which all keys have been read. It keeps the
order of the entries, so the items of two entries side by side are the items of
the first and then those of the second.
-/
import StyleTree.Query
import StyleTree.Skipped
import StyleTree.Style.Declaration

namespace StyleTree

/-- The meaning of one entry. -/
inductive Item where
  /-- The enclosing selector has this declaration. -/
  | declaration (declaration : Declaration)
  /-- The entry is left out. -/
  | rejected (key : Text) (reason : SkipReason)
  /-- The items belong to a selector under the enclosing one. -/
  | nested (fragment : Text) (body : List Item)
  /-- The items hold under a condition. -/
  | guarded (query : Query) (body : List Item)
  /-- The entry stands inside a bare keyword and is left out; it is reported
  with the conditional items. -/
  | unguarded (key : Text) (reason : SkipReason)

/-- What a key asks for. -/
inductive Role where
  | className
  | query (query : Query)
  | self
  | atRule
  | name (name : Text)
  deriving DecidableEq, Repr

/-- The role of a key. Only the class name key is compared as it is written,
all else ignores blanks around it. -/
def Role.ofKey (key : Text) : Role :=
  if key = classNameKey then .className
  else match Query.ofKey? key.trim with
  | some q => .query q
  | none =>
    if key.trim = selfKey then .self
    else if key.trim.head? = some '@' then .atRule
    else .name key.trim

/-- The item of an entry whose value is neither null nor an object. -/
def Item.ofPlain (key : Text) (value : Value) : List Item :=
  match Role.ofKey key with
  | .className => []
  | .query _ => [.rejected key .conditionalNotObject]
  | .self => [.rejected key .selfNotObject]
  | .atRule => [.rejected key .unsupportedAtRule]
  | .name name =>
    match Declaration.ofEntry? name value with
    | some d => [.declaration d]
    | none => [.rejected key .invalidValue]

-- ===================================================== bare keywords

/-- Whether a key inside a bare keyword is one of its conditions. -/
def opensCondition (key : Text) : Bool := key.trim.head? == some '('

/-- The conditions inside a bare keyword that guard nothing, because their
value is no object. -/
def Item.brokenConditions (body : Style) : List Item :=
  body.filterMap fun (key, value) =>
    if opensCondition key && value.object?.isNone then
      some (.unguarded key .conditionalNotObject)
    else none

/-- The other entries inside a bare keyword that needs a condition. -/
def Item.missingConditions (body : Style) : List Item :=
  body.filterMap fun (key, value) =>
    if opensCondition key || key == classNameKey || value.isNull then none
    else some (.unguarded key .missingCondition)

-- ========================================================== the tree

mutual

/-- The items of a style object, in the order of its entries. -/
def Item.ofStyle : List (Text × Value) → List Item
  | [] => []
  | entry :: rest => Item.ofEntry entry ++ Item.ofStyle rest
termination_by structural style => style

/-- The items of one entry. -/
def Item.ofEntry : Text × Value → List Item
  | (key, value) => Item.ofValue key value
termination_by structural entry => entry

/-- The items of a value under a key. -/
def Item.ofValue (key : Text) : Value → List Item
  | .null => []
  | .object body =>
    match Role.ofKey key with
    | .className => []
    | .query query =>
      if query.condition.isEmpty then
        Item.brokenConditions body ++
          (if query.kind = .media then
              [.guarded query (Item.unconditioned body)]
            else Item.missingConditions body) ++
          Item.conditions query.kind body
      else [.guarded query (Item.ofStyle body)]
    | .self => Item.ofStyle body
    | .atRule => [.rejected key .unsupportedAtRule]
    | .name [] => [.rejected key .emptySelector]
    | .name fragment => [.nested fragment (Item.ofStyle body)]
  | .bool flag => Item.ofPlain key (.bool flag)
  | .number value => Item.ofPlain key (.number value)
  | .text value => Item.ofPlain key (.text value)
  | .array items => Item.ofPlain key (.array items)
termination_by structural value => value

/-- The items of the entries inside a bare keyword that are not its
conditions. -/
def Item.unconditioned : List (Text × Value) → List Item
  | [] => []
  | entry :: rest =>
    (if opensCondition entry.1 then [] else Item.ofEntry entry)
      ++ Item.unconditioned rest
termination_by structural style => style

/-- The conditions inside a bare keyword, with what they guard. -/
def Item.conditions (kind : QueryKind) : List (Text × Value) → List Item
  | [] => []
  | entry :: rest =>
    Item.conditionOfEntry kind entry ++ Item.conditions kind rest
termination_by structural style => style

/-- The condition that one entry inside a bare keyword is, if it is one. -/
def Item.conditionOfEntry (kind : QueryKind) : Text × Value → List Item
  | (key, value) => Item.conditionOfValue kind key value
termination_by structural entry => entry

/-- The condition that a value under a key is, if it is one. -/
def Item.conditionOfValue (kind : QueryKind) (key : Text) : Value → List Item
  | .object body =>
    if opensCondition key then
      [.guarded (Query.ofCondition kind key.trim) (Item.ofStyle body)]
    else []
  | _ => []
termination_by structural value => value

end

-- ==================================================== entry by entry

/-- The items of a concatenation are those of its parts: an entry means the
same wherever it stands. -/
theorem Item.ofStyle_append (a b : List (Text × Value)) :
    Item.ofStyle (a ++ b) = Item.ofStyle a ++ Item.ofStyle b := by
  induction a with
  | nil => rfl
  | cons entry rest ih =>
    rw [List.cons_append, Item.ofStyle, Item.ofStyle, ih, List.append_assoc]

/-- A bare keyword without a condition inside it reads its other entries like
any other object. -/
theorem Item.unconditioned_eq_ofStyle (body : Style) :
    Item.unconditioned body
      = Item.ofStyle (body.filter fun entry => !opensCondition entry.1) := by
  induction body with
  | nil => rfl
  | cons entry rest ih =>
    cases h : opensCondition entry.1 <;>
      simp [Item.unconditioned, Item.ofStyle, h, ih]

end StyleTree
