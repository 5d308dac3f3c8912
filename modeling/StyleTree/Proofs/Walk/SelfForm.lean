/-
The `self` form and the direct form. Entries under `self` belong to the
enclosing selector, so they may as well stand there themselves. `Inlines` is
one such replacement anywhere in a tree, and the items of the tree do not
change by it, nor what is emitted and reported.

# Bare keywords

Directly inside of a bare keyword the keys are sorted before `self` is looked
at. There `self` counts as content without a condition, whatever its own keys
are, so the two forms agree only where that makes no difference: under
`@media`, which has a place for such content, and if no key of the `self`
entry would be a condition (`CanInline`). For this reason the relation carries
the kind of the bare keyword that it is directly inside of.

# The induction

It is on where the replacement happens. What is compared are the items of a
body (`Item.ofBody`): those of its entries, or inside of a bare keyword the
four groups of them, each of which is read entry by entry.
-/
import StyleTree.Proofs.Walk.Congruence

namespace StyleTree

-- ==================================================== one replacement

/-- Entries that may take the place of a `self` entry with them: anywhere but
directly inside of a bare keyword, and inside of `@media` if none of them is
one of its conditions. -/
def CanInline : Option QueryKind → Style → Prop
  | none, _ => True
  | some kind, inner =>
    kind = .media ∧ ∀ entry ∈ inner, opensCondition entry.1 = false

/-- Some `self` entry in a value is replaced by its own entries, and nothing
else changes. The value stands directly inside of a bare keyword of a kind, or
of none. -/
inductive Value.Inlines : Option QueryKind → Value → Value → Prop
  | here {bare : Option QueryKind} {key : Text} {before inner after : Style}
      (hkey : key.trim = selfKey) (hinner : CanInline bare inner) :
      Inlines bare (.object (before ++ [(key, .object inner)] ++ after))
        (.object (before ++ inner ++ after))
  | entry {bare : Option QueryKind} {key : Text} {value value' : Value}
      {before after : Style} (hvalue : Inlines (bareKind? key) value value') :
      Inlines bare (.object (before ++ [(key, value)] ++ after))
        (.object (before ++ [(key, value')] ++ after))
  | item {bare : Option QueryKind} {value value' : Value}
      {before after : List Value} (hvalue : Inlines none value value') :
      Inlines bare (.array (before ++ [value] ++ after))
        (.array (before ++ [value'] ++ after))

-- =================================================== within a body

theorem not_opensCondition_of_self {key : Text} (hkey : key.trim = selfKey) :
    opensCondition key = false := by
  unfold opensCondition
  rw [hkey]
  rfl

theorem Role.ofKey_of_self {key : Text} (hkey : key.trim = selfKey) :
    Role.ofKey key = .self :=
  ofKey_eq_of_isOf hkey

namespace Item

/-- A `self` entry is its own entries to all that reads it. -/
theorem alikeBy_self {bare : Option QueryKind} {key : Text} {inner : Style}
    (hkey : key.trim = selfKey) (hinner : CanInline bare inner) :
    Style.AlikeBy (· = ·) bare [(key, .object inner)] inner := by
  have hvalue : ofValue key (.object inner) = ofStyle inner := by
    rw [ofValue_object, Role.ofKey_of_self hkey]
    rfl
  cases bare with
  | none => exact (ofStyle_singleton key (.object inner)).trans hvalue
  | some kind =>
    obtain ⟨hmedia, hplain⟩ := hinner
    have hself := not_opensCondition_of_self hkey
    have hentry : ∀ entry ∈ [(key, Value.object inner)],
        opensCondition entry.1 = false := List.forall_mem_singleton.2 hself
    refine ⟨?_, fun _ => ?_, fun hother => absurd hmedia hother, ?_⟩
    · rw [brokenConditions_of_not_opens hplain,
        brokenConditions_of_not_opens hentry]
    · have hkept : inner.filter (fun entry => !opensCondition entry.1)
          = inner :=
        List.filter_eq_self.2 fun entry hmem => by rw [hplain entry hmem]; rfl
      rw [unconditioned_singleton, hself, if_neg Bool.false_ne_true, hvalue,
        unconditioned_eq_ofStyle, hkept]
    · rw [conditions_of_not_opens hplain, conditions_of_not_opens hentry]

/-- To a body, a `self` entry is its own entries. -/
theorem ofBody_self {bare : Option QueryKind} {key : Text}
    {inner : Style} (hkey : key.trim = selfKey) (hinner : CanInline bare inner)
    (before after : Style) :
    ofBody bare (before ++ [(key, .object inner)] ++ after)
      = ofBody bare (before ++ inner ++ after) :=
  ((alikeBy_self hkey hinner).around isCongruence_eq before after).ofBody
    isCongruence_eq

end Item

-- ========================================================== the tree

/-- Two values that a key cannot tell apart: objects with the same items, and
lists with the same words. The key gives its kind to the conditions in an
object, or none. -/
def Value.Alike (bare : Option QueryKind) : Value → Value → Prop
  | .object a, .object b => Item.ofBody bare a = Item.ofBody bare b
  | .array a, .array b => wordsOfItems? a = wordsOfItems? b
  | _, _ => False

/-- Values that are alike give equal items. -/
theorem Value.Alike.alikeBy {bare : Option QueryKind} {value value' : Value}
    (h : value.Alike bare value') : value.AlikeBy (· = ·) bare value' := by
  cases value <;> cases value' <;> exact h

/-- No key can tell a value from what a replacement makes of it. The
induction is on the path to the `self` entry. -/
theorem Value.Inlines.alike {bare : Option QueryKind} {value value' : Value}
    (h : Inlines bare value value') : value.Alike bare value' := by
  induction h with
  | here hkey hinner => exact Item.ofBody_self hkey hinner _ _
  | entry _ ih => exact Item.isCongruence_eq.ofBody_entry ih.alikeBy _ _
  | @item bare value value' before after _ ih =>
    show wordsOfItems? _ = wordsOfItems? _
    simp only [wordsOfItems?_append, wordsOfItems?, ih.alikeBy.words?_eq]

/-- The `self` form and the direct form come to the same: the same text is
emitted, and the same entries are left out. -/
theorem Style.report_eq_of_inlines {a b : Style}
    (h : Value.Inlines none (.object a) (.object b)) (selector : Text) :
    css a selector = css b selector
      ∧ (report a selector).skipped = (report b selector).skipped := by
  have hitems : Item.ofStyle a = Item.ofStyle b := h.alike
  have hreport : report a selector = report b selector := by
    unfold report
    rw [hitems]
  unfold css
  rw [hreport]
  exact ⟨rfl, rfl⟩

/-- Below a fragment that stands inside of a bare keyword, and with a
conditional key and an entry that is left out among its own entries. -/
theorem report_eq_of_inlines_below_hover :
    let inner : Style :=
      [("@media print".toList, .object [("color".toList, .text "red".toList)]),
        ("@layer base".toList, .object []), ("gap".toList, .number 4)]
    let form (body : Style) : Style :=
      [("@media".toList, .object [("&:hover".toList, .object body)])]
    let selfForm : Style := form [(" self".toList, .object inner)]
    Value.Inlines none (.object selfForm) (.object (form inner))
    ∧ Style.css selfForm ".r".toList = Style.css (form inner) ".r".toList
    ∧ (Style.report selfForm ".r".toList).skipped
      = [⟨".r:hover".toList, "@layer base".toList, .unsupportedAtRule⟩] := by
  intro inner form selfForm
  have hself : Value.Inlines none (.object [(" self".toList, .object inner)])
      (.object inner) :=
    @Value.Inlines.here none " self".toList [] inner [] (by decide) trivial
  have hhover := @Value.Inlines.entry (some .media) "&:hover".toList _ _ [] []
    hself
  have hform : Value.Inlines none (.object selfForm) (.object (form inner)) :=
    @Value.Inlines.entry none "@media".toList _ _ [] [] hhover
  obtain ⟨hcss, hskipped⟩ := Style.report_eq_of_inlines hform ".r".toList
  refine ⟨hform, hcss, hskipped.trans ?_⟩
  decide +kernel

/-- Directly inside of a bare keyword the two forms differ: under `@media` a
condition of the `self` entry is taken for a selector, and under the others
all of its entries are lost. -/
theorem self_form_differs_in_bare_keyword :
    let body : Style :=
      [("(width > 1px)".toList,
        .object [("color".toList, .text "red".toList)])]
    let form (keyword : String) (body : Style) : Style :=
      [(keyword.toList, .object body)]
    let selfBody : Style := [(selfKey, .object body)]
    (Style.css (form "@media" selfBody) ".r".toList
        = ("@media \x7b\n  .r (width > 1px) \x7b\n"
          ++ "    color: red;\n  \x7d\n\x7d").toList
      ∧ Style.css (form "@media" body) ".r".toList
        = ("@media (width > 1px) \x7b\n  .r \x7b\n"
          ++ "    color: red;\n  \x7d\n\x7d").toList)
    ∧ (Style.report (form "@container" selfBody) ".r".toList
        = ⟨[], [⟨".r".toList, selfKey, .missingCondition⟩]⟩
      ∧ Style.report (form "@container" body) ".r".toList
        = ⟨[⟨some ⟨.container, "(width > 1px)".toList⟩, ".r".toList,
            [⟨"color".toList, "red".toList⟩]⟩], []⟩) := by
  decide +kernel

end StyleTree
