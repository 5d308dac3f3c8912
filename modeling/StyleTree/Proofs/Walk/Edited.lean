/-
Editing every entry of a tree. An edit gives an entry another key or leaves it
out, by what it can see of it (`Edit`), and it reaches every object in a tree,
also those in lists (`Style.edited`).

Two edits of one tree come to the same where they do so on single entries
(`Edit.AgreeBy`, `Edit.AgreeBy.edited`). There an entry is compared whose value
is edited already, so nothing is said about what is below. The induction is
over the tree. Nothing below a list counts but how many words there are, and an
edit has no influence on these (`Value.words?_edited`).
-/
import StyleTree.Proofs.Walk.Congruence

namespace StyleTree

-- ============================================================ edits

/-- What becomes of an entry directly inside of a bare keyword of a kind, or of
none: the key that it has from now on, or none if it is left out. -/
abbrev Edit := Option QueryKind → Text → Value → Option Text

/-- No entry is changed. -/
def Edit.keep : Edit := fun _ key _ => some key

mutual

/-- A style object after an edit of all its entries, at every depth. It stands
directly inside of a bare keyword of a kind, or of none. -/
def Style.edited (edit : Edit) (bare : Option QueryKind) :
    List (Text × Value) → List (Text × Value)
  | [] => []
  | entry :: rest =>
    Style.editedEntry edit bare entry ++ Style.edited edit bare rest
termination_by structural style => style

/-- What an entry becomes, if it stays. -/
def Style.editedEntry (edit : Edit) (bare : Option QueryKind) :
    Text × Value → List (Text × Value)
  | (key, value) =>
    match edit bare key value with
    | some key' => [(key', Value.edited edit (bareKind? key) value)]
    | none => []
termination_by structural entry => entry

/-- A value after an edit of all entries in it. -/
def Value.edited (edit : Edit) (bare : Option QueryKind) : Value → Value
  | .object body => .object (Style.edited edit bare body)
  | .array items => .array (Value.editedItems edit items)
  | .null => .null
  | .bool flag => .bool flag
  | .number value => .number value
  | .text value => .text value
termination_by structural value => value

/-- The items of a list after an edit of all entries in them. -/
def Value.editedItems (edit : Edit) : List Value → List Value
  | [] => []
  | item :: rest => Value.edited edit none item :: Value.editedItems edit rest
termination_by structural items => items

end

-- ======================================================== all the keys

mutual

/-- The keys of a style object, at every depth. -/
def Style.allKeys : List (Text × Value) → List Text
  | [] => []
  | entry :: rest => Style.keysOfEntry entry ++ Style.allKeys rest
termination_by structural style => style

/-- The key of an entry and all keys in its value. -/
def Style.keysOfEntry : Text × Value → List Text
  | (key, value) => key :: Value.allKeys value
termination_by structural entry => entry

/-- The keys of all objects in a value. -/
def Value.allKeys : Value → List Text
  | .object body => Style.allKeys body
  | .array items => Value.keysOfItems items
  | _ => []
termination_by structural value => value

/-- The keys of all objects in the items of a list. -/
def Value.keysOfItems : List Value → List Text
  | [] => []
  | item :: rest => Value.allKeys item ++ Value.keysOfItems rest
termination_by structural items => items

end

section

variable {edit : Edit}

mutual

/-- An edit that keeps every key of a tree keeps the tree. -/
theorem Style.edited_eq_self (bare : Option QueryKind)
    (style : List (Text × Value))
    (h : ∀ key ∈ Style.allKeys style, ∀ bare value,
      edit bare key value = some key) :
    Style.edited edit bare style = style := by
  cases style with
  | nil => rfl
  | cons entry rest =>
    rw [Style.allKeys, List.forall_mem_append] at h
    rw [Style.edited, Style.editedEntry_eq_self bare entry h.1,
      Style.edited_eq_self bare rest h.2]
    rfl
termination_by structural style

/-- An edit that changes no key changes no entry. -/
theorem Style.editedEntry_eq_self (bare : Option QueryKind)
    (entry : Text × Value)
    (h : ∀ key ∈ Style.keysOfEntry entry, ∀ bare value,
      edit bare key value = some key) :
    Style.editedEntry edit bare entry = [entry] := by
  cases entry with
  | mk key value =>
    rw [Style.keysOfEntry, List.forall_mem_cons] at h
    rw [Style.editedEntry, h.1, Value.edited_eq_self (bareKind? key) value h.2]
termination_by structural entry

theorem Value.edited_eq_self (bare : Option QueryKind) (value : Value)
    (h : ∀ key ∈ value.allKeys, ∀ bare value, edit bare key value = some key) :
    value.edited edit bare = value := by
  cases value with
  | object body => rw [Value.edited, Style.edited_eq_self bare body h]
  | array items => rw [Value.edited, Value.editedItems_eq_self items h]
  | _ => rfl
termination_by structural value

theorem Value.editedItems_eq_self (items : List Value)
    (h : ∀ key ∈ Value.keysOfItems items, ∀ bare value,
      edit bare key value = some key) :
    Value.editedItems edit items = items := by
  cases items with
  | nil => rfl
  | cons item rest =>
    rw [Value.keysOfItems, List.forall_mem_append] at h
    rw [Value.editedItems, Value.edited_eq_self none item h.1,
      Value.editedItems_eq_self rest h.2]
termination_by structural items

end

end

/-- Keeping everything changes nothing. -/
theorem Value.edited_keep (bare : Option QueryKind) (value : Value) :
    value.edited .keep bare = value :=
  edited_eq_self bare value fun _ _ _ _ => rfl

-- ====================================================== what an edit keeps

mutual

/-- An edit does not change what a value adds to a list. -/
theorem Value.words?_edited (edit : Edit) (bare : Option QueryKind)
    (value : Value) : (value.edited edit bare).words? = value.words? := by
  cases value with
  | array items =>
    rw [Value.edited, Value.words?, Value.words?,
      wordsOfItems?_edited edit items]
  | _ => rfl
termination_by structural value

/-- Edits leave the words of an array. -/
theorem wordsOfItems?_edited (edit : Edit) (items : List Value) :
    wordsOfItems? (Value.editedItems edit items) = wordsOfItems? items := by
  cases items with
  | nil => rfl
  | cons item rest =>
    rw [Value.editedItems, wordsOfItems?, wordsOfItems?,
      Value.words?_edited edit none item, wordsOfItems?_edited edit rest]
termination_by structural items

end

theorem Value.text?_edited (edit : Edit) (bare : Option QueryKind)
    (value : Value) : (value.edited edit bare).text? = value.text? := by
  cases value <;> rfl

-- ======================================================== two edits

/-- Two values that a key cannot tell apart, the same value included. -/
def Value.SameBy (R : List Item → List Item → Prop) (bare : Option QueryKind)
    (a b : Value) : Prop :=
  a = b ∨ a.AlikeBy R bare b

/-- On every single entry, two edits come to the same once they do so on what
is below. -/
def Edit.AgreeBy (R : List Item → List Item → Prop) (e f : Edit) : Prop :=
  ∀ bare key value,
    (value.edited e (bareKind? key)).SameBy R (bareKind? key)
      (value.edited f (bareKind? key)) →
    Style.AlikeBy R bare (Style.editedEntry e bare (key, value))
      (Style.editedEntry f bare (key, value))

section

variable {R : List Item → List Item → Prop} {e f : Edit}

/-- Values that are the same give alike entries under one key. -/
theorem Value.SameBy.entry {key : Text} {value value' : Value}
    (hR : Item.IsCongruence R) (h : value.SameBy R (bareKind? key) value')
    (bare : Option QueryKind) :
    Style.AlikeBy R bare [(key, value)] [(key, value')] := by
  rcases h with rfl | h
  · exact .refl hR bare _
  · exact h.entry hR bare

mutual

/-- Two edits that agree on single entries agree on every tree. -/
theorem Edit.AgreeBy.edited (hR : Item.IsCongruence R) (h : AgreeBy R e f)
    (bare : Option QueryKind) (style : List (Text × Value)) :
    Style.AlikeBy R bare (Style.edited e bare style)
      (Style.edited f bare style) := by
  cases style with
  | nil => exact .refl hR bare []
  | cons entry rest =>
    rw [Style.edited, Style.edited]
    exact .append hR (AgreeBy.editedEntry hR h bare entry)
      (AgreeBy.edited hR h bare rest)
termination_by structural style

/-- Edits that agree make alike entries. -/
theorem Edit.AgreeBy.editedEntry (hR : Item.IsCongruence R) (h : AgreeBy R e f)
    (bare : Option QueryKind) (entry : Text × Value) :
    Style.AlikeBy R bare (Style.editedEntry e bare entry)
      (Style.editedEntry f bare entry) := by
  cases entry with
  | mk key value =>
    exact h bare key value (AgreeBy.editedValue hR h (bareKind? key) value)
termination_by structural entry

theorem Edit.AgreeBy.editedValue (hR : Item.IsCongruence R) (h : AgreeBy R e f)
    (bare : Option QueryKind) (value : Value) :
    (value.edited e bare).SameBy R bare (value.edited f bare) := by
  cases value with
  | object body => exact .inr ((AgreeBy.edited hR h bare body).ofBody hR)
  | array items =>
    exact .inr ((wordsOfItems?_edited e items).trans
      (wordsOfItems?_edited f items).symm)
  | _ => exact .inl rfl
termination_by structural value

end

-- ==================================================== entries that go

/-- An entry that gives nothing to any reader is no entry. To a bare keyword it
may still be a condition that guards nothing. -/
theorem Style.AlikeBy.gone (hR : Item.IsCongruence R)
    {bare : Option QueryKind} {key : Text} {value : Value}
    (hitems : Item.ofValue key value = [])
    (hmissing : Item.missingConditions [(key, value)] = [])
    (hconditions : ∀ kind, Item.conditionOfValue kind key value = [])
    (hbroken : bare.isSome = true →
      R (Item.brokenConditions [(key, value)]) []) :
    AlikeBy R bare [(key, value)] [] := by
  cases bare with
  | none =>
    show R (Item.ofStyle _) (Item.ofStyle _)
    rw [Item.ofStyle_singleton, hitems]
    exact hR.refl []
  | some kind =>
    constructor
    · exact hbroken rfl
    · intro _
      rw [Item.unconditioned_singleton, hitems]
      exact hR.of_eq (ite_self _)
    · exact fun _ => hR.of_eq hmissing
    · rw [Item.conditions_singleton, hconditions]
      exact hR.refl []

/-- A null under a bracket is a broken condition. -/
theorem Item.brokenConditions_null (key : Text) :
    brokenConditions [(key, .null)]
      = if opensCondition key = true then
          [.unguarded key .conditionalNotObject]
        else [] := by
  cases hopens : opensCondition key <;>
    simp [brokenConditions, hopens, Value.object?]

/-- A null entry is no entry, but for a condition of a bare keyword. -/
theorem Style.AlikeBy.null (hR : Item.IsCongruence R) {bare : Option QueryKind}
    {key : Text} (hbroken : bare.isSome = true → opensCondition key = true →
      R [.unguarded key .conditionalNotObject] []) :
    AlikeBy R bare [(key, .null)] [] := by
  refine .gone hR rfl ?_ (fun _ => rfl) fun hbare => ?_
  · simp [Item.missingConditions, Value.isNull]
  · rw [Item.brokenConditions_null]
    split
    · next hopens => exact hbroken hbare hopens
    · exact hR.refl []

/-- The class name is no condition. -/
theorem opensCondition_classNameKey : opensCondition classNameKey = false := by
  decide

/-- No item comes from the class name. -/
theorem Item.ofValue_classNameKey (value : Value) :
    ofValue classNameKey value = [] := by
  have hrole : Role.ofKey classNameKey = .className := if_pos rfl
  cases value with
  | null => rfl
  | object body => rw [ofValue_object, hrole]
  | _ => rw [ofValue, ofPlain, hrole]

/-- A class name entry is no entry to the walk. -/
theorem Style.AlikeBy.className (hR : Item.IsCongruence R)
    (bare : Option QueryKind) (value : Value) :
    AlikeBy R bare [(classNameKey, value)] [] := by
  refine .gone hR (Item.ofValue_classNameKey value) ?_
    (fun kind => ?_) fun _ => ?_
  · simp [Item.missingConditions]
  · show Item.conditionOfEntry kind (classNameKey, value) = []
    exact Item.conditionOfEntry_of_not_opens opensCondition_classNameKey kind
  · exact hR.of_eq (Item.brokenConditions_of_not_opens
      (List.forall_mem_singleton.2 opensCondition_classNameKey))

end

end StyleTree
