/-
Comparing two trees by the items that they give. A relation between items that
what stands around them does not spoil (`Item.IsCongruence`) goes from one
place in a tree up to the whole tree, whatever keys are on the way.

Two readers look at a body: the walk through the entries of an object, and a
bare keyword, which sorts them into four groups. `Style.AlikeBy` says that two
bodies come to the same for the reader that they have. It is read entry by
entry (`Style.AlikeBy.append`), while the four groups of a bare keyword are
not.
-/
import StyleTree.Proofs.Text.Trim
import StyleTree.Proofs.Walk.Placement

namespace StyleTree

-- ========================================================== bodies

/-- The kind that a key gives to the conditions directly below it. -/
def bareKind? (key : Text) : Option QueryKind :=
  match Role.ofKey key with
  | .query query => if query.condition.isEmpty then some query.kind else none
  | _ => none

/-- A key that opens with a bracket names a selector, where it is no
condition. -/
theorem Role.ofKey_of_opens {key : Text} (hopens : opensCondition key = true) :
    ∃ rest, Role.ofKey key = .name ('(' :: rest) := by
  obtain ⟨rest, hrest⟩ := opensCondition_iff.1 hopens
  have hclass : key ≠ classNameKey :=
    ne_classNameKey (by simp [hrest])
  exact ⟨rest, ofKey_eq_of_isOf
    ⟨hrest.symm, hclass, by simp [hrest], by simp [hrest]⟩⟩

/-- What opens with a bracket is no keyword. -/
theorem bareKind?_of_opens {key : Text} (hopens : opensCondition key = true) :
    bareKind? key = none := by
  obtain ⟨rest, hrole⟩ := Role.ofKey_of_opens hopens
  unfold bareKind?
  rw [hrole]

namespace Item

/-- The items of a body directly inside of a bare keyword, or of none. -/
def ofBody : Option QueryKind → Style → List Item
  | none, body => ofStyle body
  | some kind, body => ofBare ⟨kind, []⟩ body

/-- The items of an object, as its key is read. -/
theorem ofValue_object (key : Text) (body : Style) :
    ofValue key (.object body)
      = match Role.ofKey key with
        | .className => []
        | .query query =>
          if query.condition.isEmpty then ofBody (some query.kind) body
          else [.guarded query (ofBody none body)]
        | .self => ofBody none body
        | .atRule => [.rejected key .unsupportedAtRule]
        | .name [] => [.rejected key .emptySelector]
        | .name fragment => [.nested fragment (ofBody none body)] := by
  rw [ofValue]
  cases Role.ofKey key with
  | query query =>
    dsimp only
    split
    · next hbare =>
      obtain ⟨kind, condition⟩ := query
      obtain rfl : condition = [] := List.isEmpty_iff.1 hbare
      rfl
    · rfl
  | name name => cases name <;> rfl
  | _ => rfl

/-- One entry gives the items of its value. -/
theorem ofStyle_singleton (key : Text) (value : Value) :
    ofStyle [(key, value)] = ofValue key value := by
  rw [ofStyle, ofStyle, List.append_nil, ofEntry]

-- ============================================== groups entry by entry

theorem brokenConditions_append (a b : Style) :
    brokenConditions (a ++ b) = brokenConditions a ++ brokenConditions b :=
  List.filterMap_append

theorem missingConditions_append (a b : Style) :
    missingConditions (a ++ b) = missingConditions a ++ missingConditions b :=
  List.filterMap_append

theorem unconditioned_append (a b : Style) :
    unconditioned (a ++ b) = unconditioned a ++ unconditioned b := by
  induction a with
  | nil => rfl
  | cons entry rest ih =>
    rw [List.cons_append, unconditioned, unconditioned, ih, List.append_assoc]

theorem conditions_append (kind : QueryKind) (a b : Style) :
    conditions kind (a ++ b) = conditions kind a ++ conditions kind b := by
  induction a with
  | nil => rfl
  | cons entry rest ih =>
    rw [List.cons_append, conditions, conditions, ih, List.append_assoc]

theorem unconditioned_singleton (key : Text) (value : Value) :
    unconditioned [(key, value)]
      = if opensCondition key = true then [] else ofValue key value := by
  rw [unconditioned, unconditioned, List.append_nil, ofEntry]

theorem conditions_singleton (kind : QueryKind) (key : Text) (value : Value) :
    conditions kind [(key, value)] = conditionOfValue kind key value := by
  rw [conditions, conditions, List.append_nil, conditionOfEntry]

theorem brokenConditions_of_not_opens {body : Style}
    (h : ∀ entry ∈ body, opensCondition entry.1 = false) :
    brokenConditions body = [] := by
  unfold brokenConditions
  rw [List.filterMap_eq_nil_iff]
  rintro ⟨key, value⟩ hentry
  have hkey : opensCondition key = false := h _ hentry
  simp only [hkey, Bool.false_and, Bool.false_eq_true, if_false]

theorem conditionOfEntry_of_not_opens {entry : Text × Value}
    (h : opensCondition entry.1 = false) (kind : QueryKind) :
    conditionOfEntry kind entry = [] := by
  obtain ⟨key, value⟩ := entry
  show conditionOfValue kind key value = []
  cases value with
  | object body => rw [conditionOfValue, h, if_neg Bool.false_ne_true]
  | _ => rfl

theorem conditions_of_not_opens {body : Style}
    (h : ∀ entry ∈ body, opensCondition entry.1 = false) (kind : QueryKind) :
    conditions kind body = [] := by
  induction body with
  | nil => rfl
  | cons entry rest ih =>
    obtain ⟨hentry, hrest⟩ := List.forall_mem_cons.1 h
    rw [conditions, conditionOfEntry_of_not_opens hentry, ih hrest]
    rfl

end Item

-- ==================================================== congruences

/-- A relation between items that what stands around them does not spoil. -/
structure Item.IsCongruence (R : List Item → List Item → Prop) : Prop where
  refl (items : List Item) : R items items
  append {a a' b b' : List Item} (ha : R a a') (hb : R b b') :
    R (a ++ b) (a' ++ b')
  nested {a b : List Item} (h : R a b) (fragment : Text) :
    R [.nested fragment a] [.nested fragment b]
  guarded {a b : List Item} (h : R a b) (query : Query) :
    R [.guarded query a] [.guarded query b]

/-- Equality is kept inside of any items. -/
theorem Item.isCongruence_eq : IsCongruence (· = ·) where
  refl _ := rfl
  append ha hb := ha ▸ hb ▸ rfl
  nested h _ := h ▸ rfl
  guarded h _ := h ▸ rfl

namespace Item.IsCongruence

variable {R : List Item → List Item → Prop} {a b : List Item}

theorem of_eq (hR : IsCongruence R) (h : a = b) : R a b := h ▸ hR.refl a

end Item.IsCongruence

-- ==================================================== bodies alike

/-- Two bodies that a bare keyword cannot tell apart by some relation between
items: each group that it reads in them is related. -/
structure Style.AlikeInBare (R : List Item → List Item → Prop)
    (kind : QueryKind)
    (a b : Style) : Prop where
  broken : R (Item.brokenConditions a) (Item.brokenConditions b)
  unconditioned (hkind : kind = .media) :
    R (Item.unconditioned a) (Item.unconditioned b)
  missing (hkind : kind ≠ .media) :
    R (Item.missingConditions a) (Item.missingConditions b)
  conditions : R (Item.conditions kind a) (Item.conditions kind b)

/-- Two bodies that cannot be told apart by some relation between items,
directly inside of a bare keyword or of none. -/
def Style.AlikeBy (R : List Item → List Item → Prop) :
    Option QueryKind → Style → Style → Prop
  | none, a, b => R (Item.ofStyle a) (Item.ofStyle b)
  | some kind, a, b => Style.AlikeInBare R kind a b

namespace Style.AlikeBy

variable {R : List Item → List Item → Prop} {bare : Option QueryKind}
  {a a' b b' c : Style}

/-- Every body is alike itself. -/
theorem refl (hR : Item.IsCongruence R) (bare : Option QueryKind)
    (body : Style) :
    AlikeBy R bare body body := by
  cases bare with
  | none => exact hR.refl _
  | some kind =>
    exact ⟨hR.refl _, fun _ => hR.refl _, fun _ => hR.refl _, hR.refl _⟩

/-- Bodies that are alike may stand one after the other. -/
theorem append (hR : Item.IsCongruence R) (ha : AlikeBy R bare a a')
    (hb : AlikeBy R bare b b') : AlikeBy R bare (a ++ b) (a' ++ b') := by
  cases bare with
  | none =>
    show R (Item.ofStyle _) (Item.ofStyle _)
    rw [Item.ofStyle_append, Item.ofStyle_append]
    exact hR.append ha hb
  | some kind =>
    constructor
    · rw [Item.brokenConditions_append, Item.brokenConditions_append]
      exact hR.append ha.broken hb.broken
    · intro hkind
      rw [Item.unconditioned_append, Item.unconditioned_append]
      exact hR.append (ha.unconditioned hkind) (hb.unconditioned hkind)
    · intro hkind
      rw [Item.missingConditions_append, Item.missingConditions_append]
      exact hR.append (ha.missing hkind) (hb.missing hkind)
    · rw [Item.conditions_append, Item.conditions_append]
      exact hR.append ha.conditions hb.conditions

/-- So the same entries may stand around both. -/
theorem around (hR : Item.IsCongruence R) (h : AlikeBy R bare a b)
    (before after : Style) :
    AlikeBy R bare (before ++ a ++ after) (before ++ b ++ after) :=
  append hR (append hR (refl hR bare before) h) (refl hR bare after)

/-- What relates items step by step relates bodies so. -/
theorem trans (hR : ∀ {a b c : List Item}, R a b → R b c → R a c)
    (hab : AlikeBy R bare a b) (hbc : AlikeBy R bare b c) :
    AlikeBy R bare a c := by
  cases bare with
  | none => exact hR hab hbc
  | some kind =>
    exact ⟨hR hab.broken hbc.broken,
      fun hkind => hR (hab.unconditioned hkind) (hbc.unconditioned hkind),
      fun hkind => hR (hab.missing hkind) (hbc.missing hkind),
      hR hab.conditions hbc.conditions⟩

/-- Such bodies give related items. -/
theorem ofBody (hR : Item.IsCongruence R) (h : AlikeBy R bare a b) :
    R (Item.ofBody bare a) (Item.ofBody bare b) := by
  cases bare with
  | none => exact h
  | some kind =>
    show R (Item.ofBare _ _) (Item.ofBare _ _)
    unfold Item.ofBare
    dsimp only
    refine hR.append (hR.append h.broken ?_) h.conditions
    by_cases hkind : kind = .media
    · rw [if_pos hkind, if_pos hkind]
      exact hR.guarded (h.unconditioned hkind) _
    · rw [if_neg hkind, if_neg hkind]
      exact h.missing hkind

end Style.AlikeBy

-- ================================================== values in a body

/-- Two values that a key cannot tell apart by some relation between items:
objects with related items, and lists with the same words. The key gives its
kind to the conditions in an object, or none. -/
def Value.AlikeBy (R : List Item → List Item → Prop)
    (bare : Option QueryKind) : Value → Value → Prop
  | .object a, .object b => R (Item.ofBody bare a) (Item.ofBody bare b)
  | .array a, .array b => wordsOfItems? a = wordsOfItems? b
  | _, _ => False

namespace Value.AlikeBy

variable {R : List Item → List Item → Prop} {bare : Option QueryKind}
  {key : Text} {value value' : Value}

/-- Alike values are both objects or both lists. -/
theorem cases_of (h : AlikeBy R bare value value') :
    (∃ a b, value = .object a ∧ value' = .object b
        ∧ R (Item.ofBody bare a) (Item.ofBody bare b))
      ∨ ∃ a b, value = .array a ∧ value' = .array b
        ∧ wordsOfItems? a = wordsOfItems? b := by
  cases value with
  | object a =>
    cases value' with
    | object b => exact .inl ⟨a, b, rfl, rfl, h⟩
    | _ => exact absurd h id
  | array a =>
    cases value' with
    | array b => exact .inr ⟨a, b, rfl, rfl, h⟩
    | _ => exact absurd h id
  | _ => exact absurd h id

/-- Values that are alike have the same words. -/
theorem words?_eq (h : AlikeBy R bare value value') :
    value.words? = value'.words? := by
  rcases h.cases_of with ⟨a, b, rfl, rfl, -⟩ | ⟨a, b, rfl, rfl, hwords⟩
  · rfl
  · rw [words?, words?, hwords]

theorem isNull_eq (h : AlikeBy R bare value value') :
    value.isNull = value'.isNull := by
  rcases h.cases_of with ⟨a, b, rfl, rfl, -⟩ | ⟨a, b, rfl, rfl, -⟩ <;> rfl

theorem isNone_object?_eq (h : AlikeBy R bare value value') :
    value.object?.isNone = value'.object?.isNone := by
  rcases h.cases_of with ⟨a, b, rfl, rfl, -⟩ | ⟨a, b, rfl, rfl, -⟩ <;> rfl

/-- Of an array only the words count. -/
theorem ofPlain_eq (key : Text) {a b : List Value}
    (h : wordsOfItems? a = wordsOfItems? b) :
    Item.ofPlain key (.array a) = Item.ofPlain key (.array b) := by
  have hcss : Value.css? (.array a) = Value.css? (.array b) := by
    rw [css?, css?, h]
  unfold Item.ofPlain Declaration.ofEntry?
  rw [hcss]

/-- Values that are alike give related items. -/
theorem ofValue (hR : Item.IsCongruence R)
    (h : AlikeBy R (bareKind? key) value value') :
    R (Item.ofValue key value) (Item.ofValue key value') := by
  rcases h.cases_of with ⟨a, b, rfl, rfl, hbody⟩ | ⟨a, b, rfl, rfl, hwords⟩
  · rw [Item.ofValue_object, Item.ofValue_object]
    unfold bareKind? at hbody
    cases hrole : Role.ofKey key with
    | query query =>
      rw [hrole] at hbody
      dsimp only at hbody ⊢
      split
      · next hbare =>
        rw [if_pos hbare] at hbody
        exact hbody
      · next hbare =>
        rw [if_neg hbare] at hbody
        exact hR.guarded hbody query
    | name name =>
      rw [hrole] at hbody
      cases name with
      | nil => exact hR.refl _
      | cons c name => exact hR.nested hbody (c :: name)
    | self =>
      rw [hrole] at hbody
      exact hbody
    | _ => exact hR.refl _
  · exact hR.of_eq (ofPlain_eq key hwords)

/-- So they do as conditions of a bare keyword. -/
theorem conditionOfValue (hR : Item.IsCongruence R)
    (h : AlikeBy R (bareKind? key) value value') (kind : QueryKind) :
    R (Item.conditionOfValue kind key value)
      (Item.conditionOfValue kind key value') := by
  rcases h.cases_of with ⟨a, b, rfl, rfl, hbody⟩ | ⟨a, b, rfl, rfl, -⟩
  · rw [Item.conditionOfValue, Item.conditionOfValue]
    cases hopens : opensCondition key with
    | true =>
      rw [bareKind?_of_opens hopens] at hbody
      exact hR.guarded hbody _
    | false => exact hR.refl _
  · exact hR.refl _

/-- To a body, alike values are the same under their key. -/
theorem entry (hR : Item.IsCongruence R)
    (h : AlikeBy R (bareKind? key) value value') (bare : Option QueryKind) :
    Style.AlikeBy R bare [(key, value)] [(key, value')] := by
  have hvalue := h.ofValue hR
  cases bare with
  | none =>
    show R (Item.ofStyle _) (Item.ofStyle _)
    rwa [Item.ofStyle_singleton, Item.ofStyle_singleton]
  | some kind =>
    constructor
    · simp only [Item.brokenConditions, List.filterMap_cons,
        h.isNone_object?_eq]
      exact hR.refl _
    · intro _
      rw [Item.unconditioned_singleton, Item.unconditioned_singleton]
      split
      · exact hR.refl _
      · exact hvalue
    · intro _
      simp only [Item.missingConditions, List.filterMap_cons, h.isNull_eq]
      exact hR.refl _
    · rw [Item.conditions_singleton, Item.conditions_singleton]
      exact h.conditionOfValue hR kind

end Value.AlikeBy

/-- To a body, values that are alike under their key are related. -/
theorem Item.IsCongruence.ofBody_entry {R : List Item → List Item → Prop}
    (hR : IsCongruence R) {bare : Option QueryKind} {key : Text}
    {value value' : Value} (h : value.AlikeBy R (bareKind? key) value')
    (before after : Style) :
    R (ofBody bare (before ++ [(key, value)] ++ after))
      (ofBody bare (before ++ [(key, value')] ++ after)) :=
  ((h.entry hR bare).around hR before after).ofBody hR

/-- The words of a list are those of its parts. -/
theorem wordsOfItems?_append (a b : List Value) :
    wordsOfItems? (a ++ b) = do
      let words ← wordsOfItems? a
      let following ← wordsOfItems? b
      return words ++ following := by
  induction a with
  | nil => simp [wordsOfItems?]
  | cons item rest ih =>
    rw [List.cons_append, wordsOfItems?, wordsOfItems?, ih]
    simp [Option.bind_eq_bind, Option.bind_assoc]

end StyleTree
