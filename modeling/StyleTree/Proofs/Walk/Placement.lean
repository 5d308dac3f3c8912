/-
Where the entries of a style tree end up. The walk sorts every level into
groups, flattens `self`, takes bare keywords apart and puts the pieces end to
end. Here the tree is read once more without any of that: one entry after the
other, in the order of writing, each with the path of keys that leads to it.

# The two readings

`Style.findings` lists what the entries come to, a declaration or a refusal,
with the path to each. A path holds the keys that change what an entry belongs
to: a nested selector is composed onto the selectors around it, a query is
merged into the conditions around it, and `self` leaves no trace. Resolving a
path under the root (`Located.reported`) gives the place in the output.
Which role a key has is a test on its text (`Role.IsOf`), and the result about
the report states the tests as well.

The walk agrees with this reading up to order. The induction is over items,
because that is what the walk recurses on, so items get their findings too
(`Item.findings`) and the proof has two halves:

- `Level.reported_ofItems`: sorting into groups neither drops nor repeats an
  item, and each item is reported where its path says;
- `Item.findings_ofStyle`: reading keys into items neither drops nor repeats an
  entry. Only a bare keyword changes the order here, since its conditions are
  moved behind its other entries.
-/
import Mathlib.Algebra.Order.Group.Multiset
import Mathlib.Data.Multiset.Filter
import Mathlib.Tactic.Abel
import StyleTree.Proofs.Style.Keys
import StyleTree.Report

namespace StyleTree

-- ============================================================ paths

/-- A key on the way to an entry, if it changes what the entry belongs to. -/
inductive Step where
  | nested (fragment : Text)
  | guarded (query : Query)
  deriving DecidableEq, Repr

namespace Step

/-- The selector at the end of a path: its fragments, composed from the
outermost to the innermost. -/
def selector (root : Text) (path : List Step) : Text :=
  path.foldl (fun outer step =>
    match step with
    | nested fragment => Selector.compose outer fragment
    | guarded _ => outer) root

/-- The condition at the end of a path: its queries, merged from the
outermost to the innermost. -/
def guard (outer : Option Query) (path : List Step) : Option Query :=
  path.foldl (fun outer step =>
    match step with
    | nested _ => outer
    | guarded query => some (query.under outer)) outer

end Step

-- ========================================================= findings

/-- What an entry comes to. -/
inductive Finding where
  | declared (declaration : Declaration)
  | refused (key : Text) (reason : SkipReason)
  deriving DecidableEq, Repr

/-- What an entry comes to, with the path to the entry. -/
abbrev Located := List Step × Finding

/-- The finding as it is seen from outside of a further key. -/
def Located.behind (step : Step) (located : Located) : Located :=
  (step :: located.1, located.2)

/-- What an entry comes to whose value is neither null nor an object. -/
def Finding.ofPlain (key : Text) (value : Value) : List Located :=
  match Role.ofKey key with
  | .className => []
  | .query _ => [([], .refused key .conditionalNotObject)]
  | .self => [([], .refused key .selfNotObject)]
  | .atRule => [([], .refused key .unsupportedAtRule)]
  | .name name =>
    match Declaration.ofEntry? name value with
    | some declaration => [([], .declared declaration)]
    | none => [([], .refused key .invalidValue)]

mutual

/-- What the entries of a style object come to, in the order of writing. -/
def Style.findings : List (Text × Value) → List Located
  | [] => []
  | entry :: rest => Style.findingsOfEntry entry ++ Style.findings rest
termination_by structural style => style

/-- What an entry comes to. -/
def Style.findingsOfEntry : Text × Value → List Located
  | (key, value) => Style.findingsOfValue key value
termination_by structural entry => entry

/-- What a value comes to under its key. -/
def Style.findingsOfValue (key : Text) : Value → List Located
  | .null => []
  | .object body =>
    match Role.ofKey key with
    | .className => []
    | .query query =>
      if query.condition.isEmpty then Style.findingsInBare query body
      else (Style.findings body).map (Located.behind (.guarded query))
    | .self => Style.findings body
    | .atRule => [([], .refused key .unsupportedAtRule)]
    | .name [] => [([], .refused key .emptySelector)]
    | .name fragment =>
      (Style.findings body).map (Located.behind (.nested fragment))
  | .bool flag => Finding.ofPlain key (.bool flag)
  | .number value => Finding.ofPlain key (.number value)
  | .text value => Finding.ofPlain key (.text value)
  | .array items => Finding.ofPlain key (.array items)
termination_by structural value => value

/-- What the entries directly inside a bare keyword come to. -/
def Style.findingsInBare (bare : Query) : List (Text × Value) → List Located
  | [] => []
  | entry :: rest =>
    Style.findingsOfBareEntry bare entry ++ Style.findingsInBare bare rest
termination_by structural style => style

/-- What one entry directly inside a bare keyword comes to: a key that opens
with a bracket is a condition of that keyword, anything else holds whenever
the keyword alone does, and only `@media` can be alone. -/
def Style.findingsOfBareEntry (bare : Query) : Text × Value → List Located
  | (key, value) =>
    if opensCondition key then Style.findingsOfCondition bare.kind key value
    else if bare.kind = .media then
      (Style.findingsOfValue key value).map (Located.behind (.guarded bare))
    else if key = classNameKey ∨ value.isNull then []
    else [([], .refused key .missingCondition)]
termination_by structural entry => entry

/-- What a condition of a bare keyword comes to. -/
def Style.findingsOfCondition (kind : QueryKind) (key : Text) :
    Value → List Located
  | .object body =>
    (Style.findings body).map
      (Located.behind (.guarded (Query.ofCondition kind key.trim)))
  | _ => [([], .refused key .conditionalNotObject)]
termination_by structural value => value

end

-- ======================================================= the report

/-- One thing that a report says: a declaration with the condition and the
selector that it is emitted under, or an entry that was left out. -/
inductive Reported where
  | declaration (guard : Option Query) (selector : Text)
    (declaration : Declaration)
  | skipped (entry : SkippedEntry)
  deriving DecidableEq, Repr

/-- What a rule says: its declarations, each with the condition and the
selector of the rule. -/
def Rule.reported (rule : Rule) : List Reported :=
  rule.declarations.map (.declaration rule.guard rule.selector)

/-- Everything that a report says, without its order. -/
def Report.reported (report : Report) : Multiset Reported :=
  ↑(report.rules.flatMap Rule.reported)
    + ↑(report.skipped.map Reported.skipped)

/-- What a finding should be reported as, under a selector and inside a
condition. -/
def Located.reported (selector : Text) (guard : Option Query) :
    Located → Reported
  | (path, .declared declaration) =>
    .declaration (Step.guard guard path) (Step.selector selector path)
      declaration
  | (path, .refused key reason) =>
    .skipped ⟨Step.selector selector path, key, reason⟩

theorem Report.reported_append (a b : Report) :
    (a ++ b).reported = a.reported + b.reported := by
  unfold Report.reported
  rw [Report.rules_append, Report.skipped_append, List.flatMap_append,
    List.map_append, ← Multiset.coe_add, ← Multiset.coe_add]
  abel

-- ========================================== items are all reported

mutual

/-- What an item comes to. -/
def Item.findings : Item → List Located
  | .declaration d => [([], .declared d)]
  | .rejected key reason => [([], .refused key reason)]
  | .nested fragment body =>
    (Item.findingsAll body).map (Located.behind (.nested fragment))
  | .guarded query body =>
    (Item.findingsAll body).map (Located.behind (.guarded query))
  | .unguarded key reason => [([], .refused key reason)]
termination_by structural item => item

/-- What some items come to. -/
def Item.findingsAll : List Item → List Located
  | [] => []
  | item :: rest => item.findings ++ Item.findingsAll rest
termination_by structural items => items

end

theorem Item.findingsAll_append (a b : List Item) :
    findingsAll (a ++ b) = findingsAll a ++ findingsAll b := by
  induction a with
  | nil => rfl
  | cons item rest ih =>
    rw [List.cons_append, findingsAll, findingsAll, ih, List.append_assoc]

/-- A finding behind a key, seen from outside, is the finding seen from
inside. -/
theorem Located.reported_behind (step : Step) (selector : Text)
    (guard : Option Query) (found : List Located) :
    (found.map (behind step)).map (reported selector guard)
      = found.map (reported (Step.selector selector [step])
          (Step.guard guard [step])) := by
  rw [List.map_map]
  refine List.map_congr_left fun located _ => ?_
  obtain ⟨path, finding⟩ := located
  cases finding <;> rfl

/-- Below a selector the fragment is composed with it. -/
theorem Located.reported_behind_nested (fragment selector : Text)
    (guard : Option Query) (found : List Located) :
    (found.map (behind (.nested fragment))).map (reported selector guard)
      = found.map (reported (Selector.compose selector fragment) guard) :=
  reported_behind (.nested fragment) selector guard found

/-- Below a query the condition is put under the outer one. -/
theorem Located.reported_behind_guarded (query : Query) (selector : Text)
    (guard : Option Query) (found : List Located) :
    (found.map (behind (.guarded query))).map (reported selector guard)
      = found.map (reported selector (some (query.under guard))) :=
  reported_behind (.guarded query) selector guard found

/-- A level reports its declarations, what it rejected, and what is below
it. -/
theorem Level.reported_report (selector : Text) (guard : Option Query)
    (level : Level) :
    (level.report selector guard).reported
      = ↑(level.declarations.map (Reported.declaration guard selector))
        + ↑(level.rejected.map Reported.skipped)
        + level.nested.reported + level.conditional.reported := by
  have hown : (level.ownRules selector guard).flatMap Rule.reported
      = level.declarations.map (Reported.declaration guard selector) := by
    unfold Level.ownRules
    split
    · next hempty =>
      rw [List.isEmpty_iff.1 hempty]
      rfl
    · simp [Rule.reported]
  rw [Level.report, Report.reported_append, Report.reported_append]
  congr 2
  unfold Report.reported
  rw [hown]

mutual

/-- Putting an item into its group adds what the item comes to and nothing
else. -/
theorem Item.reported_place (selector : Text) (guard : Option Query)
    (level : Level) (item : Item) :
    ((item.place selector guard level).report selector guard).reported
      = ↑(item.findings.map (Located.reported selector guard))
        + (level.report selector guard).reported := by
  -- the item goes to one of the four groups that both sides are a sum of
  rw [Level.reported_report, Level.reported_report]
  cases item with
  | declaration d =>
    rw [Item.place, Item.findings]
    show (↑([Reported.declaration guard selector d] ++ _) : Multiset Reported)
      + _ + _ + _ = ↑[Reported.declaration guard selector d] + _
    rw [← Multiset.coe_add]
    abel
  | rejected key reason =>
    rw [Item.place, Item.findings]
    show _ + (↑([Reported.skipped ⟨selector, key, reason⟩] ++ _) :
      Multiset Reported) + _ + _
        = ↑[Reported.skipped ⟨selector, key, reason⟩] + _
    rw [← Multiset.coe_add]
    abel
  | nested fragment body =>
    rw [Item.place, Item.findings, Located.reported_behind_nested,
      ← Level.reported_ofItems, Report.reported_append]
    abel
  | guarded query body =>
    rw [Item.place, Item.findings, Located.reported_behind_guarded,
      ← Level.reported_ofItems, Report.reported_append]
    abel
  | unguarded key reason =>
    rw [Item.place, Item.findings, Report.reported_append]
    show _ + ((↑[Reported.skipped ⟨selector, key, reason⟩] : Multiset Reported)
      + _) = ↑[Reported.skipped ⟨selector, key, reason⟩] + _
    abel
termination_by structural item

/-- Sorting items into groups neither drops nor repeats one of them, and each
is reported where its path says. -/
theorem Level.reported_ofItems (selector : Text) (guard : Option Query)
    (items : List Item) :
    ((Level.ofItems selector guard items).report selector guard).reported
      = ↑((Item.findingsAll items).map (Located.reported selector guard)) := by
  cases items with
  | nil => rfl
  | cons item rest =>
    rw [Level.ofItems, Item.reported_place, Level.reported_ofItems,
      Item.findingsAll, List.map_append, Multiset.coe_add]
termination_by structural items

end

-- ======================================= entries all become items

/-- The items of a plain value come to what the value comes to. -/
theorem Item.findings_ofPlain (key : Text) (value : Value) :
    findingsAll (ofPlain key value) = Finding.ofPlain key value := by
  unfold ofPlain Finding.ofPlain
  cases Role.ofKey key with
  | name name =>
    dsimp only
    cases Declaration.ofEntry? name value <;> rfl
  | _ => rfl

/-- The items of the entries directly inside a bare keyword, in the order in
which they are reported. -/
def Item.ofBare (bare : Query) (body : Style) : List Item :=
  brokenConditions body ++
    (if bare.kind = .media then [.guarded bare (unconditioned body)]
      else missingConditions body) ++
    conditions bare.kind body

/-- Inside a bare keyword the entries keep their findings, although the three
groups they are sorted into lie end to end. -/
theorem Item.findings_ofBare_cons (bare : Query) (entry : Text × Value)
    (rest : Style) :
    (↑(findingsAll (ofBare bare (entry :: rest))) : Multiset Located)
      = ↑(findingsAll (ofBare bare [entry]))
        + ↑(findingsAll (ofBare bare rest)) := by
  have hbroken : brokenConditions (entry :: rest)
      = brokenConditions [entry] ++ brokenConditions rest :=
    List.filterMap_append (l := [entry]) ..
  have hmissing : missingConditions (entry :: rest)
      = missingConditions [entry] ++ missingConditions rest :=
    List.filterMap_append (l := [entry]) ..
  have hconditions : conditions bare.kind (entry :: rest)
      = conditions bare.kind [entry] ++ conditions bare.kind rest := by
    simp only [conditions, List.append_nil]
  have hunconditioned : unconditioned (entry :: rest)
      = unconditioned [entry] ++ unconditioned rest := by
    simp only [unconditioned, List.append_nil]
  unfold ofBare
  rw [hbroken, hmissing, hconditions, hunconditioned]
  split
  · simp only [findingsAll_append, findingsAll, findings, List.map_append,
      List.append_nil, ← Multiset.coe_add]
    abel
  · simp only [findingsAll_append, ← Multiset.coe_add]
    abel

/-- A key that opens with a bracket is in no group but that of the conditions,
or of the broken ones. -/
theorem Item.findings_ofBare_of_opens (bare : Query) {key : Text}
    (hopens : opensCondition key = true) (value : Value) :
    findingsAll (ofBare bare [(key, value)])
      = findingsAll (brokenConditions [(key, value)]
        ++ conditionOfValue bare.kind key value) := by
  have hrest : (if bare.kind = .media
      then [guarded bare (unconditioned [(key, value)])]
      else missingConditions [(key, value)])
        = if bare.kind = .media then [guarded bare []] else [] := by
    simp [unconditioned, missingConditions, hopens]
  have hconditions : conditions bare.kind [(key, value)]
      = conditionOfValue bare.kind key value := by
    simp only [conditions, conditionOfEntry, List.append_nil]
  unfold ofBare
  rw [hrest, hconditions]
  split <;> simp [findingsAll_append, findingsAll, findings]

/-- Any other key is in the group of the entries that the keyword guards
alone, or of those that it cannot guard. -/
theorem Item.findings_ofBare_of_not_opens (bare : Query) {key : Text}
    (hopens : opensCondition key = false) (value : Value) :
    findingsAll (ofBare bare [(key, value)])
      = findingsAll (if bare.kind = .media then
        [.guarded bare (ofValue key value)]
        else missingConditions [(key, value)]) := by
  have hbroken : brokenConditions [(key, value)] = [] := by
    simp [brokenConditions, hopens]
  have hconditions : conditions bare.kind [(key, value)] = [] := by
    cases value <;>
      simp [conditions, conditionOfEntry, conditionOfValue, hopens]
  have hunconditioned : unconditioned [(key, value)] = ofValue key value := by
    simp [unconditioned, ofEntry, hopens]
  unfold ofBare
  rw [hbroken, hconditions, hunconditioned, List.nil_append, List.append_nil]

mutual

/-- Reading keys into items neither drops nor repeats an entry. -/
theorem Item.findings_ofStyle (style : List (Text × Value)) :
    (↑(findingsAll (ofStyle style)) : Multiset Located)
      = ↑(Style.findings style) := by
  cases style with
  | nil => rfl
  | cons entry rest =>
    rw [ofStyle, findingsAll_append, Style.findings, ← Multiset.coe_add,
      ← Multiset.coe_add, findings_ofEntry, findings_ofStyle]
termination_by structural style

/-- The items of an entry come to what the entry comes to. -/
theorem Item.findings_ofEntry (entry : Text × Value) :
    (↑(findingsAll (ofEntry entry)) : Multiset Located)
      = ↑(Style.findingsOfEntry entry) := by
  cases entry with
  | mk key value => exact findings_ofValue key value
termination_by structural entry

/-- The items of a value come to what the value comes to, whatever its key is
read as. -/
theorem Item.findings_ofValue (key : Text) (value : Value) :
    (↑(findingsAll (ofValue key value)) : Multiset Located)
      = ↑(Style.findingsOfValue key value) := by
  cases value with
  | null => rfl
  | object body =>
    rw [ofValue, Style.findingsOfValue]
    cases Role.ofKey key with
    | className => rfl
    | query query =>
      dsimp only
      -- a keyword alone hands its entries on, each with a query of its own
      by_cases hbare : query.condition.isEmpty = true
      · rw [if_pos hbare, if_pos hbare]
        exact findings_ofBare query body
      · rw [if_neg hbare, if_neg hbare, findingsAll, findings, findingsAll,
          List.append_nil, ← Multiset.map_coe, ← Multiset.map_coe,
          findings_ofStyle]
    | self => exact findings_ofStyle body
    | atRule => rfl
    | name name =>
      cases name with
      | nil => rfl
      | cons c name =>
        show (↑(findingsAll [.nested (c :: name) (ofStyle body)]) :
          Multiset Located) = _
        rw [findingsAll, findings, findingsAll, List.append_nil,
          ← Multiset.map_coe, ← Multiset.map_coe, findings_ofStyle]
  | bool flag => rw [ofValue, findings_ofPlain]; rfl
  | number number => rw [ofValue, findings_ofPlain]; rfl
  | text text => rw [ofValue, findings_ofPlain]; rfl
  | array items => rw [ofValue, findings_ofPlain]; rfl
termination_by structural value

/-- Inside of a bare keyword the order changes: conditions come last. -/
theorem Item.findings_ofBare (bare : Query) (body : List (Text × Value)) :
    (↑(findingsAll (ofBare bare body)) : Multiset Located)
      = ↑(Style.findingsInBare bare body) := by
  cases body with
  | nil =>
    unfold ofBare
    split <;> rfl
  | cons entry rest =>
    rw [findings_ofBare_cons, Style.findingsInBare, ← Multiset.coe_add,
      findings_ofBareEntry, findings_ofBare]
termination_by structural body

/-- One entry there has one place in the order. -/
theorem Item.findings_ofBareEntry (bare : Query) (entry : Text × Value) :
    (↑(findingsAll (ofBare bare [entry])) : Multiset Located)
      = ↑(Style.findingsOfBareEntry bare entry) := by
  cases entry with
  | mk key value =>
    rw [Style.findingsOfBareEntry]
    cases hopens : opensCondition key with
    | true =>
      rw [if_pos rfl]
      exact findings_ofCondition bare hopens value
    | false =>
      rw [if_neg Bool.false_ne_true, findings_ofBare_of_not_opens _ hopens]
      split
      · rw [findingsAll, findings, findingsAll, List.append_nil,
          ← Multiset.map_coe, ← Multiset.map_coe, findings_ofValue]
      · -- any other keyword alone misses its condition
        unfold missingConditions
        split <;> simp_all [findingsAll, findings]
termination_by structural entry

/-- A condition of a bare keyword comes to what is inside of it. -/
theorem Item.findings_ofCondition (bare : Query) {key : Text}
    (hopens : opensCondition key = true) (value : Value) :
    (↑(findingsAll (ofBare bare [(key, value)])) : Multiset Located)
      = ↑(Style.findingsOfCondition bare.kind key value) := by
  rw [findings_ofBare_of_opens _ hopens]
  cases value with
  | object body =>
    have hbroken : brokenConditions [(key, .object body)] = [] := by
      simp [brokenConditions, Value.object?]
    rw [hbroken, List.nil_append, conditionOfValue, if_pos hopens,
      Style.findingsOfCondition, findingsAll, findings, findingsAll,
      List.append_nil, ← Multiset.map_coe, ← Multiset.map_coe,
      findings_ofStyle]
  | _ =>
    simp [brokenConditions, hopens, Value.object?, conditionOfValue,
      Style.findingsOfCondition, findingsAll, findings]
termination_by structural value

end

/-- The report on a style object says of every finding what its path says, and
nothing else. -/
theorem Style.reported_report (style : Style) (root : Text) :
    (Style.report style root).reported
      = ↑((Style.findings style).map (Located.reported root none)) := by
  unfold Style.report Report.ofItems
  rw [Level.reported_ofItems, ← Multiset.map_coe, Item.findings_ofStyle,
    Multiset.map_coe]

-- ===================================================== both channels

/-- The declarations of a rule, each with its condition, selector, property
and value. -/
def Rule.placements (rule : Rule) : List (Option Query × Text × Text × Text) :=
  rule.declarations.map fun d =>
    (rule.guard, rule.selector, d.property, d.value)

/-- The place of a finding that is a declaration. -/
def Located.placement? (root : Text) :
    Located → Option (Option Query × Text × Text × Text)
  | (path, .declared d) =>
    some (Step.guard none path, Step.selector root path, d.property, d.value)
  | (_, .refused ..) => none

/-- The entry that a finding refuses. -/
def Located.skipped? (root : Text) : Located → Option SkippedEntry
  | (_, .declared _) => none
  | (path, .refused key reason) =>
    some ⟨Step.selector root path, key, reason⟩

/-- The place of a declaration that is reported. -/
def Reported.placement? : Reported → Option (Option Query × Text × Text × Text)
  | declaration guard selector d => some (guard, selector, d.property, d.value)
  | skipped _ => none

/-- The entry that is reported as left out. -/
def Reported.skipped? : Reported → Option SkippedEntry
  | declaration .. => none
  | skipped entry => some entry

theorem Located.placement?_reported (root : Text) (located : Located) :
    (located.reported root none).placement? = located.placement? root := by
  obtain ⟨path, finding⟩ := located
  cases finding <;> rfl

theorem Located.skipped?_reported (root : Text) (located : Located) :
    (located.reported root none).skipped? = located.skipped? root := by
  obtain ⟨path, finding⟩ := located
  cases finding <;> rfl

/-- The rules of a report hold the declarations that it says. -/
theorem Report.placements_eq (report : Report) :
    (↑(report.rules.flatMap Rule.placements) : Multiset _)
      = report.reported.filterMap Reported.placement? := by
  have hrule : ∀ rule : Rule,
      rule.reported.filterMap Reported.placement? = rule.placements := by
    intro rule
    unfold Rule.reported Rule.placements
    rw [List.filterMap_map]
    exact congrFun List.filterMap_eq_map rule.declarations
  have hskipped : (report.skipped.map Reported.skipped).filterMap
      Reported.placement? = [] := by
    simp [List.filterMap_map, Function.comp_def, Reported.placement?]
  unfold Report.reported
  rw [Multiset.filterMap_add, Multiset.filterMap_coe, Multiset.filterMap_coe,
    List.filterMap_flatMap, hskipped]
  simp only [hrule, Multiset.coe_nil, add_zero]

/-- Its second channel holds the entries that were left out. -/
theorem Report.skipped_eq (report : Report) :
    (↑report.skipped : Multiset SkippedEntry)
      = report.reported.filterMap Reported.skipped? := by
  have hrules : (report.rules.flatMap Rule.reported).filterMap
      Reported.skipped? = [] := by
    rw [List.filterMap_eq_nil_iff]
    intro reported hmem
    obtain ⟨rule, -, hmem⟩ := List.mem_flatMap.1 hmem
    obtain ⟨d, -, rfl⟩ := List.mem_map.1 hmem
    rfl
  have hskipped : (report.skipped.map Reported.skipped).filterMap
      Reported.skipped? = report.skipped := by
    rw [List.filterMap_map]
    exact List.filterMap_some
  unfold Report.reported
  rw [Multiset.filterMap_add, Multiset.filterMap_coe, Multiset.filterMap_coe,
    hrules, hskipped, Multiset.coe_nil, zero_add]

/-- The walk loses and repeats nothing: the emitted declarations are those of
the entries that have one, each under the selector and the condition that the
keys on its path amount to, and the diagnostics are one for each malformed
entry. What a key amounts to follows from how it is written. -/
theorem Style.report_accounts_for_every_entry (style : Style) (root : Text) :
    (↑((Style.report style root).rules.flatMap Rule.placements) :
        Multiset (Option Query × Text × Text × Text))
      = ↑((Style.findings style).filterMap (Located.placement? root))
    ∧ (↑(Style.report style root).skipped : Multiset SkippedEntry)
      = ↑((Style.findings style).filterMap (Located.skipped? root))
    ∧ (∀ key role, Role.ofKey key = role ↔ role.IsOf key)
    ∧ ∀ key, opensCondition key = true ↔ ∃ rest, key.trim = '(' :: rest := by
  refine ⟨?_, ?_, fun _ _ => Role.ofKey_eq_iff, fun _ => opensCondition_iff⟩
  · rw [Report.placements_eq, Style.reported_report, Multiset.filterMap_coe,
      List.filterMap_map]
    simp only [Function.comp_def, Located.placement?_reported]
  · rw [Report.skipped_eq, Style.reported_report, Multiset.filterMap_coe,
      List.filterMap_map]
    simp only [Function.comp_def, Located.skipped?_reported]

-- ====================================================== single rules

/-- A level reports no rule without declarations, if none is below it. -/
theorem Level.declarations_ne_nil_of_mem_report {selector : Text}
    {guard : Option Query} {level : Level}
    (hlevel : ∀ rule ∈ level.nested.rules ++ level.conditional.rules,
      rule.declarations ≠ []) :
    ∀ rule ∈ (level.report selector guard).rules, rule.declarations ≠ [] := by
  intro rule hmem
  simp only [Level.report, Report.rules_append, List.append_assoc] at hmem
  rcases List.mem_append.1 hmem with hmem | hmem
  · unfold Level.ownRules at hmem
    split at hmem
    · cases hmem
    · next hne =>
      rw [List.mem_singleton.1 hmem]
      exact fun h => hne (List.isEmpty_iff.2 h)
  · exact hlevel rule hmem

mutual

/-- An item puts no such rule below a level. -/
theorem Item.declarations_ne_nil_of_mem_place {selector : Text}
    {guard : Option Query} {level : Level} (item : Item)
    (hlevel : ∀ rule ∈ level.nested.rules ++ level.conditional.rules,
      rule.declarations ≠ []) :
    ∀ rule ∈ (item.place selector guard level).nested.rules
        ++ (item.place selector guard level).conditional.rules,
      rule.declarations ≠ [] := by
  intro rule hmem
  cases item with
  | declaration d => exact hlevel rule hmem
  | rejected key reason => exact hlevel rule hmem
  | unguarded key reason => exact hlevel rule hmem
  | nested fragment body =>
    rw [Item.place] at hmem
    simp only [Report.rules_append, List.append_assoc, List.mem_append] at hmem
    rcases hmem with hmem | hmem | hmem
    · exact Level.declarations_ne_nil_of_mem_report
        (Level.declarations_ne_nil_of_mem_ofItems body) rule hmem
    · exact hlevel rule (List.mem_append_left _ hmem)
    · exact hlevel rule (List.mem_append_right _ hmem)
  | guarded query body =>
    rw [Item.place] at hmem
    simp only [Report.rules_append, List.mem_append] at hmem
    rcases hmem with hmem | hmem | hmem
    · exact hlevel rule (List.mem_append_left _ hmem)
    · exact Level.declarations_ne_nil_of_mem_report
        (Level.declarations_ne_nil_of_mem_ofItems body) rule hmem
    · exact hlevel rule (List.mem_append_right _ hmem)
termination_by structural item

/-- Neither do several items. -/
theorem Level.declarations_ne_nil_of_mem_ofItems {selector : Text}
    {guard : Option Query} (items : List Item) :
    ∀ rule ∈ (Level.ofItems selector guard items).nested.rules
        ++ (Level.ofItems selector guard items).conditional.rules,
      rule.declarations ≠ [] := by
  cases items with
  | nil => intro rule hmem; cases hmem
  | cons item rest =>
    rw [Level.ofItems]
    exact Item.declarations_ne_nil_of_mem_place item
      (Level.declarations_ne_nil_of_mem_ofItems rest)
termination_by structural items

end

/-- Every emitted rule has a declaration. -/
theorem Style.declarations_ne_nil_of_mem_report {style : Style} {root : Text}
    {rule : Rule} (hmem : rule ∈ (Style.report style root).rules) :
    rule.declarations ≠ [] :=
  Level.declarations_ne_nil_of_mem_report
    (Level.declarations_ne_nil_of_mem_ofItems _) rule hmem

/-- Every declaration of an emitted rule is that of an entry, and the keys on
its path amount to the condition and the selector of the rule. -/
theorem Style.exists_path_of_mem_report {style : Style} {root : Text}
    {rule : Rule} (hrule : rule ∈ (Style.report style root).rules)
    {d : Declaration} (hd : d ∈ rule.declarations) :
    ∃ path, (path, .declared d) ∈ Style.findings style
      ∧ Step.guard none path = rule.guard
      ∧ Step.selector root path = rule.selector := by
  have hreported : Reported.declaration rule.guard rule.selector d
      ∈ (Style.report style root).reported :=
    Multiset.mem_add.2 (.inl (List.mem_flatMap.2
      ⟨rule, hrule, List.mem_map_of_mem hd⟩))
  rw [Style.reported_report, Multiset.mem_coe, List.mem_map] at hreported
  obtain ⟨⟨path, finding⟩, hmem, heq⟩ := hreported
  cases finding with
  | declared d' =>
    injection heq with hguard hselector hd
    subst hd
    exact ⟨path, hmem, hguard, hselector⟩
  | refused key reason => cases heq

/-- What a report says to be declared is declared by one of its rules. -/
theorem Report.exists_rule_of_mem_reported {report : Report}
    {guard : Option Query} {selector : Text} {d : Declaration}
    (hmem : Reported.declaration guard selector d ∈ report.reported) :
    ∃ rule ∈ report.rules, d ∈ rule.declarations
      ∧ rule.guard = guard ∧ rule.selector = selector := by
  rcases Multiset.mem_add.1 hmem with hrules | hskipped
  · obtain ⟨rule, hrule, hdeclared⟩ := List.mem_flatMap.1 hrules
    obtain ⟨d', hd', heq⟩ := List.mem_map.1 hdeclared
    injection heq with hguard hselector hd
    exact ⟨rule, hrule, hd ▸ hd', hguard, hselector⟩
  · obtain ⟨entry, -, heq⟩ := List.mem_map.1 hskipped
    cases heq

/-- Every declaration that the entries of a style tree come to is in a rule at
the place that its path amounts to. -/
theorem Style.exists_rule_of_mem_findings {style : Style} {path : List Step}
    {d : Declaration} (hmem : (path, .declared d) ∈ Style.findings style)
    (root : Text) :
    ∃ rule ∈ (Style.report style root).rules, d ∈ rule.declarations
      ∧ rule.guard = Step.guard none path
      ∧ rule.selector = Step.selector root path := by
  apply Report.exists_rule_of_mem_reported
  rw [Style.reported_report, Multiset.mem_coe]
  exact List.mem_map_of_mem hmem

/-- Every rule that is emitted for items has a declaration, and is where the
path to one of its items leads. -/
theorem Report.exists_path_of_mem_ofItems {selector : Text}
    {guard : Option Query} {items : List Item} {rule : Rule}
    (hrule : rule ∈ (Report.ofItems selector guard items).rules) :
    ∃ located ∈ Item.findingsAll items, Step.guard guard located.1 = rule.guard
      ∧ Step.selector selector located.1 = rule.selector := by
  have hne : rule.declarations ≠ [] :=
    Level.declarations_ne_nil_of_mem_report
      (Level.declarations_ne_nil_of_mem_ofItems items) rule hrule
  obtain ⟨d, hd⟩ := List.exists_mem_of_ne_nil _ hne
  have hreported : Reported.declaration rule.guard rule.selector d
      ∈ (Report.ofItems selector guard items).reported :=
    Multiset.mem_add.2 (.inl (List.mem_flatMap.2
      ⟨rule, hrule, List.mem_map_of_mem hd⟩))
  unfold Report.ofItems at hreported
  rw [Level.reported_ofItems, Multiset.mem_coe, List.mem_map] at hreported
  obtain ⟨⟨path, finding⟩, hmem, heq⟩ := hreported
  cases finding with
  | declared d' =>
    injection heq with hguard hselector
    exact ⟨(path, .declared d'), hmem, hguard, hselector⟩
  | refused key reason => cases heq

/-- One declaration below some keys, the outermost first. -/
def Style.below : List String → Style
  | [] => [("color".toList, .text "red".toList)]
  | key :: keys => [(key.toList, .object (Style.below keys))]

end StyleTree
