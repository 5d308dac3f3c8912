/-
Only the order within a group matters. An object emits what it declares itself
first, then what is nested, then what is conditional, so entries of different
groups may change places without any change to the output. `Reorders` is one
such exchange of two neighbours anywhere in a tree.

What two neighbours are is said by `EntryGroup.ofEntry?`. Directly inside of a
bare keyword its conditions are one group more, which comes after everything
else; there a conditional key and a condition may change places too.

The items of a group fill one part of a level only (`Level.only`), and parts of
different groups commute.
-/
import StyleTree.Proofs.Walk.SameRules

namespace StyleTree

-- ========================================================== groups

/-- What the entries of an object can contribute to. -/
inductive EntryGroup where
  /-- The declarations of the enclosing selector. -/
  | plain
  /-- The rules of selectors below it. -/
  | nested
  /-- The rules under a condition. -/
  | conditional
  deriving DecidableEq, Repr

/-- The group of an entry: plain values, objects under a selector, and objects
under a conditional key. A `self` object is in none, its entries are in
several, and an object that is left out is in none either. -/
def EntryGroup.ofEntry? : Text × Value → Option EntryGroup
  | (key, .object _) =>
    match Role.ofKey key with
    | .query _ => some .conditional
    | .name (_ :: _) => some .nested
    | _ => none
  | _ => some .plain

/-- Two entries may change places: they are of different groups, or exactly one
of them is a condition of the bare keyword around them. -/
def MayPass (bare : Option QueryKind) (x y : Text × Value) : Prop :=
  (∃ g g', EntryGroup.ofEntry? x = some g ∧ EntryGroup.ofEntry? y = some g'
      ∧ g ≠ g')
    ∨ bare.isSome = true ∧ opensCondition x.1 ≠ opensCondition y.1

/-- Two neighbours in some object in a value change places, and nothing else
changes. The value stands directly inside of a bare keyword of a kind, or of
none. -/
inductive Value.Reorders : Option QueryKind → Value → Value → Prop
  | here {bare : Option QueryKind} {x y : Text × Value} {before after : Style}
      (hpass : MayPass bare x y) :
      Reorders bare (.object (before ++ [x, y] ++ after))
        (.object (before ++ [y, x] ++ after))
  | entry {bare : Option QueryKind} {key : Text} {value value' : Value}
      {before after : Style} (hvalue : Reorders (bareKind? key) value value') :
      Reorders bare (.object (before ++ [(key, value)] ++ after))
        (.object (before ++ [(key, value')] ++ after))
  | item {bare : Option QueryKind} {value value' : Value}
      {before after : List Value} (hvalue : Reorders none value value') :
      Reorders bare (.array (before ++ [value] ++ after))
        (.array (before ++ [value'] ++ after))

-- ================================================ groups of a level

/-- The group of a level that an item is put into. -/
def Item.group : Item → EntryGroup
  | .declaration _ => .plain
  | .rejected .. => .plain
  | .nested .. => .nested
  | .guarded .. => .conditional
  | .unguarded .. => .conditional

/-- One group of a level. -/
def Level.only (level : Level) : EntryGroup → Level
  | .plain => ⟨level.declarations, level.rejected, .empty, .empty⟩
  | .nested => ⟨[], [], level.nested, .empty⟩
  | .conditional => ⟨[], [], .empty, level.conditional⟩

/-- Two groups of entries meet nowhere in a level. -/
theorem Level.only_join_comm {g g' : EntryGroup} (h : g ≠ g') (a b : Level) :
    (a.only g).join (b.only g') = (b.only g').join (a.only g) := by
  cases g <;> cases g' <;> simp_all [only, join]

variable {g g' : EntryGroup} {a b items : List Item}

/-- Items of one group fill that part of a level and no other. -/
theorem Level.ofItems_eq_only (selector : Text) (guard : Option Query)
    (h : ∀ item ∈ items, item.group = g) :
    (ofItems selector guard items).only g = ofItems selector guard items := by
  induction items with
  | nil => cases g <;> rfl
  | cons item rest ih =>
    obtain ⟨rfl, hrest⟩ := List.forall_mem_cons.1 h
    rw [ofItems, ← ih hrest]
    cases item <;> rfl

namespace Item

/-- So items of different groups may change places. -/
theorem SameRules.comm (ha : ∀ item ∈ a, item.group = g)
    (hb : ∀ item ∈ b, item.group = g') (hne : g ≠ g') :
    SameRules (a ++ b) (b ++ a) := by
  intro selector guard
  rw [Level.ofItems_append, Level.ofItems_append,
    ← Level.ofItems_eq_only selector guard ha,
    ← Level.ofItems_eq_only selector guard hb, Level.only_join_comm hne]

-- =============================================== groups of entries

theorem group_of_mem_ofPlain (key : Text) (value : Value) :
    ∀ item ∈ ofPlain key value, item.group = .plain := by
  unfold ofPlain
  cases Role.ofKey key with
  | className => exact fun _ hitem => nomatch hitem
  | name name =>
    dsimp only
    split <;> exact List.forall_mem_singleton.2 rfl
  | _ => exact List.forall_mem_singleton.2 rfl

/-- A condition is in the group of conditions. -/
theorem group_of_mem_conditionOfEntry (kind : QueryKind)
    (entry : Text × Value) :
    ∀ item ∈ conditionOfEntry kind entry, item.group = .conditional := by
  obtain ⟨key, value⟩ := entry
  show ∀ item ∈ conditionOfValue kind key value, _
  cases value with
  | object body =>
    rw [conditionOfValue]
    split
    · exact List.forall_mem_singleton.2 rfl
    · exact fun _ hitem => nomatch hitem
  | _ => exact fun _ hitem => nomatch hitem

theorem group_of_mem_conditions (kind : QueryKind) (body : Style) :
    ∀ item ∈ conditions kind body, item.group = .conditional := by
  induction body with
  | nil => exact fun _ hitem => nomatch hitem
  | cons entry rest ih =>
    rw [conditions]
    exact List.forall_mem_append.2
      ⟨group_of_mem_conditionOfEntry kind entry, ih⟩

theorem group_of_mem_brokenConditions (body : Style) :
    ∀ item ∈ brokenConditions body, item.group = .conditional := by
  intro item hitem
  obtain ⟨⟨key, value⟩, -, heq⟩ := List.mem_filterMap.1 hitem
  dsimp only at heq
  split at heq <;> cases heq
  rfl

theorem group_of_mem_missingConditions (body : Style) :
    ∀ item ∈ missingConditions body, item.group = .conditional := by
  intro item hitem
  obtain ⟨⟨key, value⟩, -, heq⟩ := List.mem_filterMap.1 hitem
  dsimp only at heq
  split at heq <;> cases heq
  rfl

theorem group_of_mem_ofBare (bare : Query) (body : Style) :
    ∀ item ∈ ofBare bare body, item.group = .conditional := by
  unfold ofBare
  refine List.forall_mem_append.2 ⟨List.forall_mem_append.2
    ⟨group_of_mem_brokenConditions body, ?_⟩, group_of_mem_conditions _ body⟩
  split
  · exact List.forall_mem_singleton.2 rfl
  · exact group_of_mem_missingConditions body

/-- The group of an object is told by its key. -/
theorem ofEntry?_object (key : Text) (body : Style) :
    EntryGroup.ofEntry? (key, .object body)
      = match Role.ofKey key with
        | .query _ => some .conditional
        | .name (_ :: _) => some .nested
        | _ => none := rfl

/-- The items of an entry are all of its group. -/
theorem group_of_mem_ofEntry {entry : Text × Value}
    (h : EntryGroup.ofEntry? entry = some g) :
    ∀ item ∈ ofEntry entry, item.group = g := by
  obtain ⟨key, value⟩ := entry
  show ∀ item ∈ ofValue key value, item.group = g
  cases value with
  | object body =>
    rw [ofEntry?_object] at h
    rw [ofValue_object]
    cases hrole : Role.ofKey key with
    | query query =>
      rw [hrole] at h
      cases h
      dsimp only
      split
      · exact group_of_mem_ofBare _ body
      · exact List.forall_mem_singleton.2 rfl
    | name name =>
      rw [hrole] at h
      cases name with
      | nil => cases h
      | cons c name =>
        cases h
        exact List.forall_mem_singleton.2 rfl
    | _ =>
      rw [hrole] at h
      cases h
  | null => exact fun _ hitem => nomatch hitem
  | _ =>
    cases h
    rw [ofValue]
    exact group_of_mem_ofPlain key _

-- ======================================================= the exchange

/-- Entries of different groups may change places. -/
theorem SameRules.comm_entries {x y : Text × Value}
    (hx : EntryGroup.ofEntry? x = some g)
    (hy : EntryGroup.ofEntry? y = some g')
    (hne : g ≠ g') :
    SameRules (ofEntry x ++ ofEntry y) (ofEntry y ++ ofEntry x) :=
  .comm (group_of_mem_ofEntry hx) (group_of_mem_ofEntry hy) hne

/-- A condition of a bare keyword is an object under a key that opens with a
bracket. -/
theorem conditionOfEntry_eq_nil_or (kind : QueryKind) (entry : Text × Value) :
    conditionOfEntry kind entry = []
      ∨ opensCondition entry.1 = true
        ∧ EntryGroup.ofEntry? entry = some .nested := by
  obtain ⟨key, value⟩ := entry
  cases hopens : opensCondition key with
  | false => exact .inl (conditionOfEntry_of_not_opens hopens kind)
  | true =>
    cases value with
    | object body =>
      obtain ⟨rest, hrole⟩ := Role.ofKey_of_opens hopens
      refine .inr ⟨rfl, ?_⟩
      rw [ofEntry?_object, hrole]
    | _ => exact .inl rfl

/-- At most one of two entries that may change places is a condition. -/
theorem conditions_comm {bare : Option QueryKind} {x y : Text × Value}
    (h : MayPass bare x y) (kind : QueryKind) :
    conditions kind [x, y] = conditions kind [y, x] := by
  simp only [conditions, List.append_nil]
  rcases conditionOfEntry_eq_nil_or kind x with hx | ⟨hx, hx'⟩
  · rw [hx, List.append_nil, List.nil_append]
  · rcases conditionOfEntry_eq_nil_or kind y with hy | ⟨hy, hy'⟩
    · rw [hy, List.append_nil, List.nil_append]
    · rcases h with ⟨g, g', hg, hg', hne⟩ | ⟨-, hne⟩
      · -- two conditions would be of one group
        have hsame : some g = some g' :=
          hg.symm.trans (hx'.trans (hy'.symm.trans hg'))
        exact absurd (Option.some.inj hsame) hne
      · rw [hx, hy] at hne
        exact absurd rfl hne

/-- Entries that may pass each other do so among those without a condition. -/
theorem SameRules.comm_unconditioned {bare : Option QueryKind}
    {x y : Text × Value} (h : MayPass bare x y) :
    SameRules (unconditioned [x, y]) (unconditioned [y, x]) := by
  simp only [unconditioned, List.append_nil]
  cases hx : opensCondition x.1 with
  | true =>
    rw [if_pos rfl, List.append_nil, List.nil_append]
    exact .refl _
  | false =>
    cases hy : opensCondition y.1 with
    | true =>
      rw [if_pos rfl, List.append_nil, List.nil_append]
      exact .refl _
    | false =>
      rcases h with ⟨g, g', hg, hg', hne⟩ | ⟨-, hne⟩
      · exact .comm_entries hg hg' hne
      · rw [hx, hy] at hne
        exact absurd rfl hne

/-- Entries that may pass each other are alike in both orders. -/
theorem SameRules.alikeBy_swap {bare : Option QueryKind} {x y : Text × Value}
    (h : MayPass bare x y) : Style.AlikeBy SameRules bare [x, y] [y, x] := by
  cases bare with
  | none =>
    rcases h with ⟨g, g', hg, hg', hne⟩ | ⟨hbare, -⟩
    · show SameRules (ofStyle _) (ofStyle _)
      simp only [ofStyle, List.append_nil]
      exact .comm_entries hg hg' hne
    · cases hbare
  | some kind =>
    refine SameRules.alikeInBare (fun _ => .comm_unconditioned h) ?_
    rw [conditions_comm h]
    exact .refl _

/-- A body emits the same rules with two entries in the other order. -/
theorem SameRules.ofBody_swap {bare : Option QueryKind} {x y : Text × Value}
    (h : MayPass bare x y) (before after : Style) :
    SameRules (ofBody bare (before ++ [x, y] ++ after))
      (ofBody bare (before ++ [y, x] ++ after)) :=
  ((alikeBy_swap h).around isCongruence_sameRules before after).ofBody
    isCongruence_sameRules

end Item

/-- The exchange makes no difference to any key. The induction is on the path
to the two entries. -/
theorem Value.Reorders.alikeBy {bare : Option QueryKind} {value value' : Value}
    (h : Reorders bare value value') :
    value.AlikeBy Item.SameRules bare value' := by
  induction h with
  | here hpass => exact Item.SameRules.ofBody_swap hpass _ _
  | entry _ ih => exact Item.isCongruence_sameRules.ofBody_entry ih _ _
  | @item bare value value' before after _ ih =>
    show wordsOfItems? _ = wordsOfItems? _
    simp only [wordsOfItems?_append, wordsOfItems?, ih.words?_eq]

/-- Only the order within a group matters: two neighbours of different groups,
in any object of a tree, may change places without a change to what is
emitted. -/
theorem Style.css_eq_of_reorders {a b : Style}
    (h : Value.Reorders none (.object a) (.object b)) (selector : Text) :
    css a selector = css b selector :=
  css_eq_of_sameRules h.alikeBy selector

/-- A selector and a conditional key change places inside of a bare keyword
below a `self` block, where a condition stands behind them. -/
theorem css_eq_of_reorders_below_self :
    let color (name : String) : Value :=
      .object [("color".toList, .text name.toList)]
    let hover : Text × Value := ("&:hover".toList, color "red")
    let wide : Text × Value := ("@supports (gap: 1px)".toList, color "blue")
    let tree (inner : Style) : Style :=
      [("self".toList, .object [("@media".toList,
        .object (inner ++ [("(width > 1px)".toList, color "green")]))])]
    Value.Reorders none (.object (tree [hover, wide]))
      (.object (tree [wide, hover]))
    ∧ Style.css (tree [hover, wide]) ".r".toList
      = Style.css (tree [wide, hover]) ".r".toList
    ∧ (Style.report (tree [wide, hover]) ".r".toList).rules.map Rule.selector
      = [".r:hover".toList, ".r".toList, ".r".toList] := by
  intro color hover wide tree
  have hpass : MayPass (some .media) hover wide :=
    .inl ⟨.nested, .conditional, by decide +kernel, by decide +kernel,
      by decide⟩
  have hmedia := @Value.Reorders.here (some .media) hover wide []
    [("(width > 1px)".toList, color "green")] hpass
  have hself := @Value.Reorders.entry none "@media".toList _ _ [] [] hmedia
  have htree : Value.Reorders none (.object (tree [hover, wide]))
      (.object (tree [wide, hover])) :=
    @Value.Reorders.entry none "self".toList _ _ [] [] hself
  exact ⟨htree, Style.css_eq_of_reorders htree ".r".toList, by decide +kernel⟩

end StyleTree
