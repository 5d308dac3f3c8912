/-
Entries that are left out might as well not be there. `Style.cleaned` deletes
them, at every depth, and what remains emits the same rules without a word on
what was left out.

# What is deleted

`Style.Without` says that one tree is another one without some entries, and
lists these by the keys that lead to them. It knows nothing of what keys mean.
That the deleted entries are the ones that were reported is said by reading the
keys around them as the walk does (`KeyPath.name`).

# The two halves

`Style.deletesRefused` follows the findings of the entries, which are in the
order of writing: an entry that is refused is deleted, and any other stays with
what is left of its value. `Item.ofStyle_cleaned` follows the items: those of
what is left are the items from before without the refused ones
(`Item.keptAll`), and such items are of no use but to be reported
(`Level.ofItems_keptAll`).
-/
import StyleTree.Compile
import StyleTree.Proofs.Walk.SelfForm

namespace StyleTree

-- ================================================= deleting entries

/-- The way to an entry: the keys around it, the outermost first, and its
own. -/
abbrev KeyPath := List Text × Text

/-- The way to an entry that stands under a further key. -/
def KeyPath.below (key : Text) (path : KeyPath) : KeyPath :=
  (key :: path.1, path.2)

mutual

/-- A value is another one without some entries in it. -/
inductive Value.Without : List KeyPath → Value → Value → Prop
  | same (value : Value) : Value.Without [] value value
  | object {deleted : List KeyPath} {body left : List (Text × Value)}
      (hbody : Style.Without deleted body left) :
      Value.Without deleted (.object body) (.object left)

/-- A style object is another one without some entries, its own or deeper
ones. All others keep their keys and their order. -/
inductive Style.Without :
    List KeyPath → List (Text × Value) → List (Text × Value) → Prop
  | nil : Style.Without [] [] []
  | keep {inside behind : List KeyPath} {key : Text} {value value' : Value}
      {rest left : List (Text × Value)}
      (hvalue : Value.Without inside value value')
      (hrest : Style.Without behind rest left) :
      Style.Without (inside.map (KeyPath.below key) ++ behind)
        ((key, value) :: rest) ((key, value') :: left)
  | delete {behind : List KeyPath} {key : Text} {value : Value}
      {rest left : List (Text × Value)}
      (hrest : Style.Without behind rest left) :
      Style.Without (([], key) :: behind) ((key, value) :: rest) left

end

/-- One entry is treated before the others. -/
theorem Style.Without.cons {here behind : List KeyPath} {entry : Text × Value}
    {kept rest left : Style} (hentry : Style.Without here [entry] kept)
    (hrest : Style.Without behind rest left) :
    Style.Without (here ++ behind) (entry :: rest) (kept ++ left) := by
  cases hentry with
  | keep hvalue hnil =>
    cases hnil
    rw [List.append_nil]
    exact .keep hvalue hrest
  | delete hnil =>
    cases hnil
    exact .delete hrest

-- ===================================================== where they are

/-- The selector in force below a key. Directly inside of a bare keyword a key
that opens with a bracket is no selector but a condition. -/
def Selector.below (root : Text) (bare : Option QueryKind)
    (key : Text) : Text :=
  if bare.isSome && opensCondition key then root
  else match Role.ofKey key with
  | .name fragment => compose root fragment
  | _ => root

/-- The selector in force below some keys, the outermost first. -/
def Selector.belowAll : Text → Option QueryKind → List Text → Text
  | root, _, [] => root
  | root, bare, key :: keys =>
    belowAll (below root bare key) (bareKind? key) keys

/-- The name that an entry has in a report: the selector it stands under, and
its key. -/
def KeyPath.name (root : Text) (bare : Option QueryKind) (path : KeyPath) :
    Text × Text :=
  (Selector.belowAll root bare path.1, path.2)

/-- The name of an entry that was left out. -/
def SkippedEntry.name (entry : SkippedEntry) : Text × Text :=
  (entry.selector, entry.key)

/-- The name of the entry that a finding refuses. -/
def Located.refusedName? (root : Text) (located : Located) :
    Option (Text × Text) :=
  (located.skipped? root).map SkippedEntry.name

/-- Paths below a key are named from there. -/
theorem KeyPath.name_below (root : Text) (bare : Option QueryKind) (key : Text)
    (paths : List KeyPath) :
    (paths.map (below key)).map (name root bare)
      = paths.map (name (Selector.below root bare key) (bareKind? key)) := by
  rw [List.map_map]
  rfl

/-- What is refused below a step is named from there. -/
theorem Located.refusedName?_behind (root : Text) (step : Step)
    (found : List Located) :
    (found.map (behind step)).filterMap (refusedName? root)
      = found.filterMap (refusedName? (Step.selector root [step])) := by
  rw [List.filterMap_map]
  refine List.filterMap_congr fun located _ => ?_
  obtain ⟨path, finding⟩ := located
  cases finding <;> rfl

-- ==================================================== the cleaned tree

/-- An entry that is neither null nor an object, unless it is refused. -/
def Style.cleanedPlain (key : Text) (value : Value) : Style :=
  match Role.ofKey key with
  | .className => [(key, value)]
  | .name name =>
    if (Declaration.ofEntry? name value).isSome then [(key, value)] else []
  | _ => []

mutual

/-- The entries of a style object that are not refused, with what is not
refused inside of them. -/
def Style.cleaned : List (Text × Value) → List (Text × Value)
  | [] => []
  | entry :: rest => Style.cleanedEntry entry ++ Style.cleaned rest
termination_by structural style => style

/-- What is not refused of an entry. -/
def Style.cleanedEntry : Text × Value → List (Text × Value)
  | (key, value) => Style.cleanedValue key value
termination_by structural entry => entry

/-- What is not refused of a value and its key. An object stays with what is
not refused in it, unless its key is refused. -/
def Style.cleanedValue (key : Text) : Value → List (Text × Value)
  | .null => [(key, .null)]
  | .object body =>
    match Role.ofKey key with
    | .className => [(key, .object body)]
    | .query query =>
      if query.condition.isEmpty then
        [(key, .object (Style.cleanedInBare query.kind body))]
      else [(key, .object (Style.cleaned body))]
    | .self => [(key, .object (Style.cleaned body))]
    | .atRule => []
    | .name [] => []
    | .name _ => [(key, .object (Style.cleaned body))]
  | .bool flag => Style.cleanedPlain key (.bool flag)
  | .number value => Style.cleanedPlain key (.number value)
  | .text value => Style.cleanedPlain key (.text value)
  | .array items => Style.cleanedPlain key (.array items)
termination_by structural value => value

/-- The entries directly inside of a bare keyword that are not refused. -/
def Style.cleanedInBare (kind : QueryKind) :
    List (Text × Value) → List (Text × Value)
  | [] => []
  | entry :: rest =>
    Style.cleanedBareEntry kind entry ++ Style.cleanedInBare kind rest
termination_by structural style => style

/-- What is not refused of an entry directly inside of a bare keyword. -/
def Style.cleanedBareEntry (kind : QueryKind) :
    Text × Value → List (Text × Value)
  | (key, value) =>
    if opensCondition key then Style.cleanedCondition key value
    else if kind = .media then Style.cleanedValue key value
    else if key = classNameKey ∨ value.isNull then [(key, value)]
    else []
termination_by structural entry => entry

/-- A condition of a bare keyword stays if it has an object. -/
def Style.cleanedCondition (key : Text) : Value → List (Text × Value)
  | .object body => [(key, .object (Style.cleaned body))]
  | _ => []
termination_by structural value => value

end

-- =========================================== the deleted are the refused

/-- `left` is what some entries leave when those are deleted that the findings
refuse. -/
def Style.DeletesRefused (bare : Option QueryKind) (entries left : Style)
    (found : List Located) : Prop :=
  ∃ deleted, Style.Without deleted entries left
    ∧ ∀ root, deleted.map (KeyPath.name root bare)
      = found.filterMap (Located.refusedName? root)

namespace Style.DeletesRefused

variable {bare : Option QueryKind} {key : Text}

theorem nil : DeletesRefused bare [] [] [] := ⟨[], .nil, fun _ => rfl⟩

/-- What is deleted of an entry and of the others is deleted of all. -/
theorem cons {entry : Text × Value} {kept rest left : Style}
    {here behind : List Located}
    (hentry : DeletesRefused bare [entry] kept here)
    (hrest : DeletesRefused bare rest left behind) :
    DeletesRefused bare (entry :: rest) (kept ++ left) (here ++ behind) := by
  obtain ⟨deleted, hdeleted, hname⟩ := hentry
  obtain ⟨deleted', hdeleted', hname'⟩ := hrest
  refine ⟨deleted ++ deleted', hdeleted.cons hdeleted', fun root => ?_⟩
  rw [List.map_append, List.filterMap_append, hname, hname']

/-- An entry of which nothing is refused stays as it is. -/
theorem same (value : Value) {found : List Located}
    (hfound : ∀ root, found.filterMap (Located.refusedName? root) = []) :
    DeletesRefused bare [(key, value)] [(key, value)] found :=
  ⟨[], .keep (.same value) .nil, fun root => (hfound root).symm⟩

/-- An entry that is refused goes. -/
theorem gone (value : Value) (reason : SkipReason) :
    DeletesRefused bare [(key, value)] [] [([], .refused key reason)] :=
  ⟨[([], key)], .delete .nil, fun _ => rfl⟩

/-- An entry with an object stays, with what is left of the object. -/
theorem inside {body left : Style} {found found' : List Located}
    (hbody : DeletesRefused (bareKind? key) body left found)
    (hfound : ∀ root, found'.filterMap (Located.refusedName? root)
      = found.filterMap
        (Located.refusedName? (Selector.below root bare key))) :
    DeletesRefused bare [(key, .object body)]
      [(key, .object left)] found' := by
  obtain ⟨deleted, hdeleted, hname⟩ := hbody
  refine ⟨deleted.map (KeyPath.below key) ++ [],
    .keep (.object hdeleted) .nil, fun root => ?_⟩
  rw [List.append_nil, KeyPath.name_below, hname, hfound]

/-- Directly inside of a bare keyword, only brackets make a difference. -/
theorem of_not_opens (hopens : opensCondition key = false) {value : Value}
    {left : Style} {found : List Located}
    (h : DeletesRefused none [(key, value)] left found) :
    DeletesRefused bare [(key, value)] left found := by
  obtain ⟨deleted, hdeleted, hname⟩ := h
  refine ⟨deleted, hdeleted, fun root => ?_⟩
  rw [← hname root]
  have hbelow : Selector.below root bare key
      = Selector.below root none key := by
    unfold Selector.below
    rw [hopens, Bool.and_false, Bool.and_false]
  cases hdeleted with
  | keep hvalue hnil =>
    cases hnil
    rw [List.append_nil, KeyPath.name_below, KeyPath.name_below, hbelow]
  | delete hnil =>
    cases hnil
    rfl

end Style.DeletesRefused

/-- Only a name takes the selector further. -/
theorem Selector.below_none (root key : Text) :
    below root none key
      = match Role.ofKey key with
        | .name fragment => compose root fragment
        | _ => root := rfl

/-- A value that is no object is deleted exactly if it is refused. -/
theorem Style.deletesRefusedPlain (key : Text) (value : Value) :
    DeletesRefused none [(key, value)] (cleanedPlain key value)
      (Finding.ofPlain key value) := by
  unfold cleanedPlain Finding.ofPlain
  cases Role.ofKey key with
  | className => exact .same value fun _ => rfl
  | name name =>
    dsimp only
    cases Declaration.ofEntry? name value with
    | some declaration => exact .same value fun _ => rfl
    | none => exact .gone value _
  | _ => exact .gone value _

mutual

/-- The entries that are deleted are those that are refused. -/
theorem Style.deletesRefused (style : List (Text × Value)) :
    DeletesRefused none style (cleaned style) (findings style) := by
  cases style with
  | nil => exact .nil
  | cons entry rest =>
    rw [cleaned, findings]
    exact .cons (deletesRefusedEntry entry) (deletesRefused rest)
termination_by structural style

/-- Of an entry exactly what is refused is deleted. -/
theorem Style.deletesRefusedEntry (entry : Text × Value) :
    DeletesRefused none [entry] (cleanedEntry entry)
      (findingsOfEntry entry) := by
  cases entry with
  | mk key value => exact deletesRefusedValue key value
termination_by structural entry

/-- Of a value too: what is refused in an object is found below its key. -/
theorem Style.deletesRefusedValue (key : Text) (value : Value) :
    DeletesRefused none [(key, value)] (cleanedValue key value)
      (findingsOfValue key value) := by
  cases value with
  | null => exact .same .null fun _ => rfl
  | object body =>
    have hbelow := fun root => Selector.below_none root key
    -- which keyword is bare inside is told by the key, as the path below it is
    have hbare : bareKind? key = match Role.ofKey key with
        | .query query =>
          if query.condition.isEmpty then some query.kind else none
        | _ => none := rfl
    rw [cleanedValue, findingsOfValue]
    cases hrole : Role.ofKey key with
    | className => exact .same (.object body) fun _ => rfl
    | query query =>
      simp only [hrole] at hbelow hbare ⊢
      by_cases hempty : query.condition.isEmpty = true
      · rw [if_pos hempty] at hbare
        rw [if_pos hempty, if_pos hempty]
        refine .inside (hbare ▸ deletesRefusedInBare query body) fun root => ?_
        rw [hbelow]
      · rw [if_neg hempty] at hbare
        rw [if_neg hempty, if_neg hempty]
        refine .inside (hbare ▸ deletesRefused body) fun root => ?_
        rw [hbelow, Located.refusedName?_behind]
        rfl
    | self =>
      simp only [hrole] at hbelow hbare
      refine .inside (hbare ▸ deletesRefused body) fun root => ?_
      rw [hbelow]
    | atRule => exact .gone (.object body) _
    | name name =>
      simp only [hrole] at hbelow hbare
      cases name with
      | nil => exact .gone (.object body) _
      | cons c name =>
        refine .inside (hbare ▸ deletesRefused body) fun root => ?_
        rw [hbelow, Located.refusedName?_behind]
        rfl
  | bool flag => exact deletesRefusedPlain key (.bool flag)
  | number number => exact deletesRefusedPlain key (.number number)
  | text text => exact deletesRefusedPlain key (.text text)
  | array items => exact deletesRefusedPlain key (.array items)
termination_by structural value

/-- Directly inside of a bare keyword exactly what is refused is deleted. -/
theorem Style.deletesRefusedInBare (bare : Query)
    (body : List (Text × Value)) :
    DeletesRefused (some bare.kind) body (cleanedInBare bare.kind body)
      (findingsInBare bare body) := by
  cases body with
  | nil => exact .nil
  | cons entry rest =>
    rw [cleanedInBare, findingsInBare]
    exact .cons (deletesRefusedBareEntry bare entry)
      (deletesRefusedInBare bare rest)
termination_by structural body

theorem Style.deletesRefusedBareEntry (bare : Query) (entry : Text × Value) :
    DeletesRefused (some bare.kind) [entry] (cleanedBareEntry bare.kind entry)
      (findingsOfBareEntry bare entry) := by
  cases entry with
  | mk key value =>
    rw [cleanedBareEntry, findingsOfBareEntry]
    cases hopens : opensCondition key with
    | true =>
      rw [if_pos rfl, if_pos rfl]
      exact deletesRefusedCondition bare.kind hopens value
    | false =>
      rw [if_neg Bool.false_ne_true, if_neg Bool.false_ne_true]
      by_cases hmedia : bare.kind = .media
      · rw [if_pos hmedia, if_pos hmedia]
        have hvalue : DeletesRefused (some bare.kind) [(key, value)]
            (cleanedValue key value) (findingsOfValue key value) :=
          (deletesRefusedValue key value).of_not_opens hopens
        obtain ⟨deleted, hdeleted, hname⟩ := hvalue
        refine ⟨deleted, hdeleted, fun root => ?_⟩
        rw [hname, Located.refusedName?_behind]
        rfl
      · rw [if_neg hmedia, if_neg hmedia]
        split
        · exact .same value fun _ => rfl
        · exact .gone value _
termination_by structural entry

/-- A condition of a bare keyword is refused only if it has no object. -/
theorem Style.deletesRefusedCondition (kind : QueryKind) {key : Text}
    (hopens : opensCondition key = true) (value : Value) :
    DeletesRefused (some kind) [(key, value)] (cleanedCondition key value)
      (findingsOfCondition kind key value) := by
  cases value with
  | object body =>
    rw [cleanedCondition, findingsOfCondition]
    refine .inside (bareKind?_of_opens hopens ▸ deletesRefused body)
      fun root => ?_
    rw [Located.refusedName?_behind, Selector.below, hopens]
    rfl
  | _ => exact .gone _ _
termination_by structural value

end

-- ===================================== items that are not left out

mutual

/-- An item without what is left out of it; nothing if it is itself left
out. -/
def Item.kept : Item → List Item
  | .declaration d => [.declaration d]
  | .nested fragment body => [.nested fragment (Item.keptAll body)]
  | .guarded query body => [.guarded query (Item.keptAll body)]
  | .rejected _ _ => []
  | .unguarded _ _ => []
termination_by structural item => item

/-- The items without what is left out of them. -/
def Item.keptAll : List Item → List Item
  | [] => []
  | item :: rest => item.kept ++ Item.keptAll rest
termination_by structural items => items

end

namespace Item

variable {key : Text} {value : Value}

@[simp] theorem keptAll_nil : keptAll [] = [] := rfl

theorem keptAll_append (a b : List Item) :
    keptAll (a ++ b) = keptAll a ++ keptAll b := by
  induction a with
  | nil => rfl
  | cons item rest ih =>
    rw [List.cons_append, keptAll, keptAll, ih, List.append_assoc]

@[simp] theorem keptAll_singleton (item : Item) :
    keptAll [item] = item.kept := by
  rw [keptAll, keptAll_nil, List.append_nil]

/-- Nothing is kept of the entries that a bare keyword refuses. -/
theorem keptAll_unguarded {items : List Item}
    (h : ∀ item ∈ items, ∃ key reason, item = .unguarded key reason) :
    keptAll items = [] := by
  induction items with
  | nil => rfl
  | cons item rest ih =>
    obtain ⟨⟨key, reason, rfl⟩, hrest⟩ := List.forall_mem_cons.1 h
    rw [keptAll, ih hrest, List.append_nil, kept]

theorem keptAll_brokenConditions (body : Style) :
    keptAll (brokenConditions body) = [] := by
  refine keptAll_unguarded fun item hitem => ?_
  obtain ⟨⟨key, value⟩, -, hentry⟩ := List.mem_filterMap.1 hitem
  dsimp only at hentry
  split at hentry
  · exact ⟨key, _, (Option.some.inj hentry).symm⟩
  · cases hentry

theorem keptAll_missingConditions (body : Style) :
    keptAll (missingConditions body) = [] := by
  refine keptAll_unguarded fun item hitem => ?_
  obtain ⟨⟨key, value⟩, -, hentry⟩ := List.mem_filterMap.1 hitem
  dsimp only at hentry
  split at hentry
  · cases hentry
  · exact ⟨key, _, (Option.some.inj hentry).symm⟩

/-- A value that is no object is kept exactly if it is not refused. -/
theorem ofStyle_cleanedPlain (hplain : ofValue key value = ofPlain key value) :
    ofStyle (Style.cleanedPlain key value) = keptAll (ofValue key value) := by
  have hsame : ofStyle [(key, value)] = ofPlain key value := by
    rw [ofStyle_singleton, hplain]
  rw [hplain]
  unfold Style.cleanedPlain
  unfold ofPlain at hsame ⊢
  cases hrole : Role.ofKey key with
  | className =>
    rw [hrole] at hsame
    exact hsame
  | name name =>
    rw [hrole] at hsame
    dsimp only at hsame ⊢
    cases hcss : Declaration.ofEntry? name value with
    | some d =>
      rw [hcss] at hsame
      rw [Option.isSome_some, if_pos rfl, hsame, keptAll_singleton, kept]
    | none =>
      rw [Option.isSome_none, if_neg Bool.false_ne_true, keptAll_singleton,
        kept]
      rfl
  | _ =>
    dsimp only
    rw [keptAll_singleton, kept]
    rfl

-- ============================================= within a bare keyword

/-- What is left of an entry keeps its key. -/
theorem key_of_mem_cleanedValue {entry : Text × Value}
    (hentry : entry ∈ Style.cleanedValue key value) : entry.1 = key := by
  have hplain : ∀ value, entry ∈ Style.cleanedPlain key value →
      entry.1 = key := by
    intro value hentry
    unfold Style.cleanedPlain at hentry
    split at hentry
    · rw [List.mem_singleton.1 hentry]
    · split at hentry
      · rw [List.mem_singleton.1 hentry]
      · cases hentry
    · cases hentry
  cases value with
  | null => rw [List.mem_singleton.1 hentry]
  | object body =>
    rw [Style.cleanedValue] at hentry
    split at hentry
    · rw [List.mem_singleton.1 hentry]
    · split at hentry
      · rw [List.mem_singleton.1 hentry]
      · rw [List.mem_singleton.1 hentry]
    · rw [List.mem_singleton.1 hentry]
    · cases hentry
    · cases hentry
    · rw [List.mem_singleton.1 hentry]
  | _ => exact hplain _ hentry

/-- A key that opens with a bracket is a condition. -/
theorem cleanedBareEntry_of_opens (kind : QueryKind)
    (hopens : opensCondition key = true) (value : Value) :
    Style.cleanedBareEntry kind (key, value)
      = Style.cleanedCondition key value := by
  rw [Style.cleanedBareEntry, if_pos hopens]

/-- What stays of an entry has its key. -/
theorem key_of_mem_cleanedBareEntry {kind : QueryKind} {entry : Text × Value}
    (hopens : opensCondition key = false)
    (hentry : entry ∈ Style.cleanedBareEntry kind (key, value)) :
    entry.1 = key := by
  rw [Style.cleanedBareEntry, hopens, if_neg Bool.false_ne_true] at hentry
  split at hentry
  · exact key_of_mem_cleanedValue hentry
  · split at hentry
    · rw [List.mem_singleton.1 hentry]
    · cases hentry

/-- No condition is left that guards nothing. -/
theorem brokenConditions_cleanedInBare (kind : QueryKind) (body : Style) :
    brokenConditions (Style.cleanedInBare kind body) = [] := by
  induction body with
  | nil => rfl
  | cons entry rest ih =>
    obtain ⟨key, value⟩ := entry
    rw [Style.cleanedInBare, brokenConditions_append, ih, List.append_nil]
    cases hopens : opensCondition key with
    | true =>
      rw [cleanedBareEntry_of_opens kind hopens]
      cases value with
      | object body =>
        simp [Style.cleanedCondition, brokenConditions, Value.object?]
      | _ => rfl
    | false =>
      refine List.filterMap_eq_nil_iff.2 fun left hleft => ?_
      obtain ⟨other, value⟩ := left
      obtain rfl : other = key := key_of_mem_cleanedBareEntry hopens hleft
      simp only [hopens, Bool.false_and, Bool.false_eq_true, if_false]

/-- No entry is left that needs a condition. -/
theorem missingConditions_cleanedInBare {kind : QueryKind}
    (hkind : kind ≠ .media)
    (body : Style) :
    missingConditions (Style.cleanedInBare kind body) = [] := by
  induction body with
  | nil => rfl
  | cons entry rest ih =>
    obtain ⟨key, value⟩ := entry
    rw [Style.cleanedInBare, missingConditions_append, ih, List.append_nil]
    cases hopens : opensCondition key with
    | true =>
      rw [cleanedBareEntry_of_opens kind hopens]
      cases value with
      | object body => simp [Style.cleanedCondition, missingConditions, hopens]
      | _ => rfl
    | false =>
      rw [Style.cleanedBareEntry, hopens, if_neg Bool.false_ne_true,
        if_neg hkind]
      split
      · next hignored =>
        -- what stays without a condition is a class name or a null
        have hskip : (opensCondition key || key == classNameKey
            || value.isNull) = true := by
          rcases hignored with hkey | hnull
          · simp [hkey]
          · simp [hnull]
        simp only [missingConditions, List.filterMap_cons, hskip, if_true,
          List.filterMap_nil]
      · rfl

/-- An entry without a bracket is no condition, and neither is what is left of
it. -/
theorem conditions_cleanedBareEntry_of_not_opens (kind : QueryKind)
    (hopens : opensCondition key = false) (value : Value) :
    conditions kind (Style.cleanedBareEntry kind (key, value))
      = keptAll (conditionOfEntry kind (key, value)) := by
  have hleft : ∀ entry ∈ Style.cleanedBareEntry kind (key, value),
      opensCondition entry.1 = false := fun entry hentry => by
    rw [key_of_mem_cleanedBareEntry hopens hentry, hopens]
  rw [conditions_of_not_opens hleft, conditionOfEntry_of_not_opens hopens]
  rfl

-- ========================================================== the items

/-- The items inside of a bare keyword are in groups. None is left in those of
what is left out, and the other two are compared on their own. -/
theorem ofBare_cleanedInBare (kind : QueryKind) {body : Style}
    (hmedia : kind = .media → unconditioned (Style.cleanedInBare kind body)
      = keptAll (unconditioned body))
    (hconditions : conditions kind (Style.cleanedInBare kind body)
      = keptAll (conditions kind body)) :
    ofBare ⟨kind, []⟩ (Style.cleanedInBare kind body)
      = keptAll (ofBare ⟨kind, []⟩ body) := by
  unfold ofBare
  rw [brokenConditions_cleanedInBare, hconditions, keptAll_append,
    keptAll_append, keptAll_brokenConditions]
  by_cases hkind : kind = .media
  · rw [if_pos hkind, if_pos hkind, hmedia hkind, keptAll_singleton, kept]
  · rw [if_neg hkind, if_neg hkind, keptAll_missingConditions,
      missingConditions_cleanedInBare hkind]

mutual

/-- The items of what is left are the items that are not left out. -/
theorem ofStyle_cleaned (style : List (Text × Value)) :
    ofStyle (Style.cleaned style) = keptAll (ofStyle style) := by
  cases style with
  | nil => rfl
  | cons entry rest =>
    rw [Style.cleaned, ofStyle_append, ofStyle, keptAll_append,
      ofStyle_cleanedEntry, ofStyle_cleaned]
termination_by structural style

/-- The items of what is not refused are the items that are kept. -/
theorem ofStyle_cleanedEntry (entry : Text × Value) :
    ofStyle (Style.cleanedEntry entry) = keptAll (ofEntry entry) := by
  cases entry with
  | mk key value => exact ofStyle_cleanedValue key value
termination_by structural entry

/-- The items left of a value are those that are kept, whatever its key is read
as. -/
theorem ofStyle_cleanedValue (key : Text) (value : Value) :
    ofStyle (Style.cleanedValue key value) = keptAll (ofValue key value) := by
  cases value with
  | null => rfl
  | object body =>
    rw [Style.cleanedValue, ofValue_object]
    have hitems : ∀ left, ofStyle [(key, .object left)]
        = ofValue key (.object left) := fun left => ofStyle_singleton key _
    -- the items of what is left are read off the same key once more
    simp only [ofValue_object] at hitems
    cases hrole : Role.ofKey key with
    | className =>
      simp only [hrole] at hitems ⊢
      exact hitems body
    | query query =>
      simp only [hrole] at hitems ⊢
      by_cases hempty : query.condition.isEmpty = true
      · rw [if_pos hempty, if_pos hempty, hitems, if_pos hempty]
        exact ofBare_cleanedInBare query.kind
          (fun hkind => unconditioned_cleanedInBare hkind body)
          (conditions_cleanedInBare query.kind body)
      · rw [if_neg hempty, if_neg hempty, hitems, if_neg hempty,
          keptAll_singleton, kept]
        exact congrArg (fun items => [guarded query items])
          (ofStyle_cleaned body)
    | self =>
      simp only [hrole] at hitems ⊢
      rw [hitems]
      exact ofStyle_cleaned body
    | atRule => rw [keptAll_singleton, kept]; rfl
    | name name =>
      simp only [hrole] at hitems ⊢
      cases name with
      | nil => rw [keptAll_singleton, kept]; rfl
      | cons c name =>
        dsimp only at hitems ⊢
        rw [hitems, keptAll_singleton, kept]
        exact congrArg (fun items => [nested (c :: name) items])
          (ofStyle_cleaned body)
  | bool flag => exact ofStyle_cleanedPlain rfl
  | number number => exact ofStyle_cleanedPlain rfl
  | text text => exact ofStyle_cleanedPlain rfl
  | array items => exact ofStyle_cleanedPlain rfl
termination_by structural value

/-- Inside of a bare `@media` the same holds of what has no condition of its
own. -/
theorem unconditioned_cleanedInBare {kind : QueryKind} (hkind : kind = .media)
    (body : List (Text × Value)) :
    unconditioned (Style.cleanedInBare kind body)
      = keptAll (unconditioned body) := by
  cases body with
  | nil => rfl
  | cons entry rest =>
    rw [Style.cleanedInBare, unconditioned_append, unconditioned,
      keptAll_append, unconditioned_cleanedBareEntry hkind entry,
      unconditioned_cleanedInBare hkind rest]
termination_by structural body

theorem unconditioned_cleanedBareEntry {kind : QueryKind}
    (hkind : kind = .media)
    (entry : Text × Value) :
    unconditioned (Style.cleanedBareEntry kind entry)
      = keptAll (if opensCondition entry.1 then [] else ofEntry entry) := by
  cases entry with
  | mk key value =>
    cases hopens : opensCondition key with
    | true =>
      rw [cleanedBareEntry_of_opens kind hopens, if_pos rfl]
      cases value with
      | object body => simp [Style.cleanedCondition, unconditioned, hopens]
      | _ => rfl
    | false =>
      have hleft : Style.cleanedBareEntry kind (key, value)
          = Style.cleanedValue key value := by
        rw [Style.cleanedBareEntry, hopens, if_neg Bool.false_ne_true,
          if_pos hkind]
      have hplain : ∀ entry ∈ Style.cleanedValue key value,
          (!opensCondition entry.1) = true := fun entry hentry => by
        rw [key_of_mem_cleanedValue hentry, hopens]
        rfl
      rw [hleft, unconditioned_eq_ofStyle, List.filter_eq_self.2 hplain,
        if_neg Bool.false_ne_true, ofStyle_cleanedValue]
      rfl
termination_by structural entry

/-- The conditions left inside of a bare keyword are those that are kept. -/
theorem conditions_cleanedInBare (kind : QueryKind)
    (body : List (Text × Value)) :
    conditions kind (Style.cleanedInBare kind body)
      = keptAll (conditions kind body) := by
  cases body with
  | nil => rfl
  | cons entry rest =>
    rw [Style.cleanedInBare, conditions_append, conditions, keptAll_append,
      conditions_cleanedBareEntry kind entry,
      conditions_cleanedInBare kind rest]
termination_by structural body

theorem conditions_cleanedBareEntry (kind : QueryKind) (entry : Text × Value) :
    conditions kind (Style.cleanedBareEntry kind entry)
      = keptAll (conditionOfEntry kind entry) := by
  cases entry with
  | mk key value =>
    cases hopens : opensCondition key with
    | true =>
      rw [cleanedBareEntry_of_opens kind hopens]
      exact conditions_cleanedCondition kind hopens value
    | false => exact conditions_cleanedBareEntry_of_not_opens kind hopens value
termination_by structural entry

theorem conditions_cleanedCondition (kind : QueryKind) {key : Text}
    (hopens : opensCondition key = true) (value : Value) :
    conditions kind (Style.cleanedCondition key value)
      = keptAll (conditionOfValue kind key value) := by
  cases value with
  | object body =>
    rw [Style.cleanedCondition, conditions, conditions, conditionOfEntry,
      conditionOfValue, conditionOfValue, if_pos hopens, if_pos hopens,
      List.append_nil, keptAll_singleton, kept, ofStyle_cleaned]
  | _ => rfl
termination_by structural value

end

end Item

-- ========================================================= the report

/-- A report that is silent about what was left out. -/
def Report.silenced (report : Report) : Report := ⟨report.rules, []⟩

/-- A level that is silent about what was left out. -/
def Level.silenced (level : Level) : Level :=
  ⟨level.declarations, [], level.nested.silenced, level.conditional.silenced⟩

theorem Level.report_silenced (selector : Text) (guard : Option Query)
    (level : Level) :
    level.silenced.report selector guard
      = (level.report selector guard).silenced := rfl

mutual

/-- What is kept of an item adds to a level what the item adds to it, but for
what is left out. -/
theorem Item.place_kept (selector : Text) (guard : Option Query)
    {level : Level}
    {rest : List Item} (item : Item)
    (hrest : Level.ofItems selector guard rest = level.silenced) :
    Level.ofItems selector guard (item.kept ++ rest)
      = (item.place selector guard level).silenced := by
  cases item with
  | declaration d =>
    rw [Item.kept, List.singleton_append, Level.ofItems, hrest]
    rfl
  | rejected key reason => exact hrest
  | nested fragment body =>
    rw [Item.kept, List.singleton_append, Level.ofItems, hrest, Item.place,
      Item.place, Level.ofItems_keptAll, Level.report_silenced]
    rfl
  | guarded query body =>
    rw [Item.kept, List.singleton_append, Level.ofItems, hrest, Item.place,
      Item.place, Level.ofItems_keptAll, Level.report_silenced]
    rfl
  | unguarded key reason => exact hrest
termination_by structural item

/-- Items that are left out are of no use but to be reported. -/
theorem Level.ofItems_keptAll (selector : Text) (guard : Option Query)
    (items : List Item) :
    Level.ofItems selector guard (Item.keptAll items)
      = (Level.ofItems selector guard items).silenced := by
  cases items with
  | nil => rfl
  | cons item rest =>
    rw [Item.keptAll, Level.ofItems]
    exact Item.place_kept selector guard item
      (Level.ofItems_keptAll selector guard rest)
termination_by structural items

end

namespace Style

/-- Without what was refused the report is the same, and silent. -/
theorem report_cleaned (style : Style) (root : Text) :
    report (cleaned style) root = (report style root).silenced := by
  unfold report Report.ofItems
  rw [Item.ofStyle_cleaned, Level.ofItems_keptAll, Level.report_silenced]

/-- The names in a report are those of the refused entries. -/
theorem names_skipped (style : Style) (root : Text) :
    ((findings style).filterMap (Located.refusedName? root)).Perm
      ((report style root).skipped.map SkippedEntry.name) := by
  have hskipped : (↑(report style root).skipped : Multiset SkippedEntry)
      = ↑((findings style).filterMap (Located.skipped? root)) := by
    rw [Report.skipped_eq, reported_report, Multiset.filterMap_coe,
      List.filterMap_map]
    simp only [Function.comp_def, Located.skipped?_reported]
  have hnames : (findings style).filterMap (Located.refusedName? root)
      = ((findings style).filterMap (Located.skipped? root)).map
        SkippedEntry.name := List.map_filterMap.symm
  rw [hnames]
  exact (Multiset.coe_eq_coe.1 hskipped.symm).map SkippedEntry.name

/-- What is left out contributes nothing. From every style tree some entries
can be deleted, one for each that was left out and of the same name, so that
nothing is left out any more and the same text is emitted. On that tree a
strict compiler succeeds, with the text that a lenient one gives for the
whole. -/
theorem exists_without_skipped (style : Style) (selector : Text) :
    ∃ deleted left, Style.Without deleted style left
      ∧ (deleted.map (KeyPath.name selector none)).Perm
        ((report style selector).skipped.map SkippedEntry.name)
      ∧ (report left selector).skipped = []
      ∧ css left selector = css style selector
      ∧ compile .lenient style selector
        = .ok ⟨css style selector, (report style selector).skipped⟩
      ∧ compile .strict left selector = .ok ⟨css style selector, []⟩ := by
  obtain ⟨deleted, hdeleted, hname⟩ := deletesRefused style
  have hreport := report_cleaned style selector
  refine ⟨deleted, cleaned style, hdeleted, ?_, ?_, ?_, ?_, ?_⟩
  · rw [hname]
    exact names_skipped style selector
  · rw [hreport]
    rfl
  · unfold css
    rw [hreport]
    rfl
  · exact compile_lenient style selector
  · unfold compile
    rw [hreport]
    rfl

end Style

end StyleTree
