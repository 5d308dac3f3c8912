/-
Where a condition gets lost. The condition in force is replaced at every
conditional on the way down, so that an entry below a condition is still
emitted under one is a fact about merging. Two queries of one kind keep what
either of them asks for; of two kinds the inner one stands, and it may ask for
nothing. Only `@media` is emitted without a condition, so that is the only way
to lose one: a bare `@media` inside of a condition of another kind.

# The last condition

A query with a condition is in force, merged or not, with a condition
(`condition_under_ne_nil`). So what is above the last condition of a path does
not matter, and below it there is nothing but bare keywords. Those leave the
condition alone if it is one of `@media` (`guard_of_media`), and else the
first of them takes its place for good (`guard_of_other`).
-/
import StyleTree.Proofs.Query.Merge
import StyleTree.Proofs.Walk.Placement

namespace StyleTree

namespace Step

variable {path above below : List Step} {active query : Query}

-- ============================================================= paths

theorem guard_append (outer : Option Query) (a b : List Step) :
    guard outer (a ++ b) = guard (guard outer a) b :=
  List.foldl_append

/-- A nested selector leaves the condition. -/
theorem guard_nested (outer : Option Query) (fragment : Text)
    (path : List Step) :
    guard outer (.nested fragment :: path) = guard outer path := rfl

/-- A query is put under the condition that is in force. -/
theorem guard_guarded (outer : Option Query) (query : Query)
    (path : List Step) :
    guard outer (.guarded query :: path)
      = guard (some (query.under outer)) path := rfl

/-- A keyword without a condition is `@media`, as on every path of a style
tree. -/
def BareIsMedia (path : List Step) : Prop :=
  ∀ query, .guarded query ∈ path → query.condition = [] → query.kind = .media

/-- There is nothing but bare keywords on the way. -/
def AllBare (path : List Step) : Prop :=
  ∀ query, .guarded query ∈ path → query.condition = []

/-- The last condition of the path is none of `@media`, and a bare keyword
stands below it. -/
def LosesGuard (path : List Step) : Prop :=
  ∃ above query below bare, path = above ++ .guarded query :: below
    ∧ query.condition ≠ [] ∧ query.kind ≠ .media
    ∧ .guarded bare ∈ below ∧ AllBare below

/-- No bare keyword is entered while a query of another kind is in force. -/
def Uninterrupted : Query → List Step → Prop
  | _, [] => True
  | active, .nested _ :: rest => Uninterrupted active rest
  | active, .guarded query :: rest =>
    (query.condition = [] → query.kind = active.kind)
      ∧ Uninterrupted (query.under (some active)) rest

theorem BareIsMedia.tail {step : Step} (h : BareIsMedia (step :: path)) :
    BareIsMedia path :=
  fun query hquery => h query (List.mem_cons_of_mem _ hquery)

theorem AllBare.tail {step : Step} (h : AllBare (step :: path)) :
    AllBare path :=
  fun query hquery => h query (List.mem_cons_of_mem _ hquery)

-- =================================================== the way down

/-- Where it is not interrupted, a condition stays a condition. -/
theorem Uninterrupted.guard (h : Uninterrupted active path)
    (hactive : active.condition ≠ []) :
    ∃ query, Step.guard (some active) path = some query
      ∧ query.condition ≠ [] := by
  induction path generalizing active with
  | nil => exact ⟨active, rfl, hactive⟩
  | cons step rest ih =>
    cases step with
    | nested fragment => exact ih h hactive
    | guarded query =>
      obtain ⟨hbare, hrest⟩ := h
      refine ih hrest ?_
      by_cases hquery : query.condition = []
      · show (active.merge query).condition ≠ []
        rwa [Query.merge_of_bare_inner (hbare hquery).symm hquery]
      · exact Query.condition_under_ne_nil hquery _

/-- Without a query the outer condition stays. -/
theorem guard_of_nested (h : ∀ query, .guarded query ∉ path)
    (outer : Option Query) : guard outer path = outer := by
  induction path with
  | nil => rfl
  | cons step rest ih =>
    cases step with
    | nested fragment =>
      exact ih fun query hquery => h query (List.mem_cons_of_mem _ hquery)
    | guarded query => exact absurd (List.mem_cons_self ..) (h query)

/-- Bare `@media` leaves a condition of `@media` as it is. -/
theorem guard_of_media (hbare : AllBare path) (hmedia : BareIsMedia path)
    (hactive : active.kind = .media) :
    guard (some active) path = some active := by
  induction path with
  | nil => rfl
  | cons step rest ih =>
    have hrest := ih hbare.tail hmedia.tail
    cases step with
    | nested fragment => exact hrest
    | guarded query =>
      have hquery := hbare query (List.mem_cons_self ..)
      have hkind := hmedia query (List.mem_cons_self ..) hquery
      have hmerge : active.merge query = active :=
        Query.merge_of_bare_inner (hactive.trans hkind.symm) hquery
      rw [guard_guarded, Query.under, hmerge, hrest]

/-- Bare `@media` puts itself in the place of any other condition. -/
theorem guard_of_other (hbare : AllBare path) (hmedia : BareIsMedia path)
    (hactive : active.kind ≠ .media) (hmem : .guarded query ∈ path) :
    guard (some active) path = some ⟨.media, []⟩ := by
  induction path with
  | nil => cases hmem
  | cons step rest ih =>
    cases step with
    | nested fragment =>
      rw [guard_nested]
      refine ih hbare.tail hmedia.tail ?_
      rcases List.mem_cons.1 hmem with heq | hmem
      · cases heq
      · exact hmem
    | guarded first =>
      have hfirst := hbare first (List.mem_cons_self ..)
      have hkind := hmedia first (List.mem_cons_self ..) hfirst
      have hmerge : active.merge first = first :=
        Query.merge_of_kind_ne fun heq => hactive (heq.trans hkind)
      have heq : first = ⟨.media, []⟩ := by
        obtain ⟨kind, condition⟩ := first
        exact Query.mk.injEq .. ▸ ⟨hkind, hfirst⟩
      rw [guard_guarded, Query.under, hmerge,
        guard_of_media hbare.tail hmedia.tail hkind, heq]

/-- A path with a condition has a last one. -/
theorem exists_last_condition (hmem : .guarded query ∈ path)
    (hquery : query.condition ≠ []) :
    ∃ above last below, path = above ++ .guarded last :: below
      ∧ last.condition ≠ [] ∧ AllBare below := by
  induction path generalizing query with
  | nil => cases hmem
  | cons step rest ih =>
    by_cases hrest : AllBare rest
    · rcases List.mem_cons.1 hmem with rfl | hmem
      · exact ⟨[], query, rest, rfl, hquery, hrest⟩
      · exact absurd (hrest query hmem) hquery
    · obtain ⟨next, hnext, hcondition⟩ : ∃ next, .guarded next ∈ rest
          ∧ next.condition ≠ [] := by
        by_contra hnone
        refine hrest fun next hnext => ?_
        by_contra hcondition
        exact hnone ⟨next, hnext, hcondition⟩
      obtain ⟨above, last, below, heq, hlast, hbelow⟩ := ih hnext hcondition
      exact ⟨step :: above, last, below, by rw [heq]; rfl, hlast, hbelow⟩

/-- Behind the last condition of a path no condition stands. -/
theorem AllBare.eq_nil_of_append {middle below' : List Step} {query' : Query}
    (hbelow : AllBare below) (hquery' : query'.condition ≠ [])
    (h : .guarded query :: below = middle ++ .guarded query' :: below') :
    middle = [] := by
  cases middle with
  | nil => rfl
  | cons step middle =>
    injection h with hstep hrest
    refine absurd (hbelow query' ?_) hquery'
    rw [hrest]
    exact List.mem_append_right _ (List.mem_cons_self ..)

/-- The last condition of a path is where it is. -/
theorem last_condition_unique {above' below' : List Step} {query' : Query}
    (heq : above ++ .guarded query :: below
      = above' ++ .guarded query' :: below')
    (hquery : query.condition ≠ []) (hbelow : AllBare below)
    (hquery' : query'.condition ≠ []) (hbelow' : AllBare below') :
    query = query' ∧ below = below' := by
  -- what the longer of the two ways has in between is empty
  rcases List.append_eq_append_iff.1 heq
    with ⟨middle, -, hmiddle⟩ | ⟨middle, -, hmiddle⟩
  · obtain rfl := hbelow.eq_nil_of_append hquery' hmiddle
    injection hmiddle with hstep hrest
    injection hstep with hq
    exact ⟨hq, hrest⟩
  · obtain rfl := hbelow'.eq_nil_of_append hquery hmiddle
    injection hmiddle with hstep hrest
    injection hstep with hq
    exact ⟨hq.symm, hrest.symm⟩

/-- The condition at the end of a path that has one is empty exactly if the
path loses it. -/
theorem exists_guard (hmedia : BareIsMedia path)
    (hmem : .guarded query ∈ path) (hquery : query.condition ≠ []) :
    ∃ last, guard none path = some last
      ∧ (last.condition = [] ↔ LosesGuard path) := by
  obtain ⟨above, last, below, rfl, hlast, hbelow⟩ :=
    exists_last_condition hmem hquery
  have hmedia' : BareIsMedia below := fun q hq =>
    hmedia q (List.mem_append_right _ (List.mem_cons_of_mem _ hq))
  have hkind := Query.kind_under last (guard none above)
  have hcondition := Query.condition_under_ne_nil hlast (guard none above)
  rw [guard_append, guard_guarded]
  by_cases hloses : LosesGuard (above ++ .guarded last :: below)
  · obtain ⟨above', query', below', bare, heq, hquery', hother, hbare,
      hbelow'⟩ :=
      hloses
    -- the condition that is lost is the last one of the path
    obtain ⟨rfl, rfl⟩ :=
      last_condition_unique heq hlast hbelow hquery' hbelow'
    refine ⟨⟨.media, []⟩, ?_, fun _ => ?_, fun _ => rfl⟩
    · exact guard_of_other hbelow hmedia' (hkind ▸ hother) hbare
    · exact ⟨above, last, below, bare, rfl, hlast, hother, hbare, hbelow⟩
  · refine ⟨last.under (guard none above), ?_, fun h => absurd h hcondition,
      fun h => absurd h hloses⟩
    by_cases hlastKind : last.kind = .media
    · exact guard_of_media hbelow hmedia' (hkind.trans hlastKind)
    · -- a keyword alone behind it would have lost it
      have hnone : ∀ bare, .guarded bare ∉ below := fun bare hbare =>
        hloses ⟨above, last, below, bare, rfl, hlast, hlastKind, hbare, hbelow⟩
      exact guard_of_nested hnone _

-- ================================================== keys of a tree

/-- A selector in front is no keyword. -/
theorem BareIsMedia.cons_nested (h : BareIsMedia path) (fragment : Text) :
    BareIsMedia (.nested fragment :: path) := by
  intro query hquery
  rcases List.mem_cons.1 hquery with heq | hquery
  · cases heq
  · exact h query hquery

/-- A keyword alone in front has to be `@media`. -/
theorem BareIsMedia.cons_guarded (h : BareIsMedia path)
    (hquery : query.condition = [] → query.kind = .media) :
    BareIsMedia (.guarded query :: path) := by
  intro next hnext
  rcases List.mem_cons.1 hnext with heq | hnext
  · cases heq
    exact hquery
  · exact h next hnext

theorem bareIsMedia_nil : BareIsMedia [] := fun _ hquery => nomatch hquery

end Step

open Step (BareIsMedia)

/-- A plain value is found with no step before it. -/
theorem Finding.bareIsMedia_ofPlain (key : Text) (value : Value) :
    ∀ located ∈ Finding.ofPlain key value, BareIsMedia located.1 := by
  intro located hlocated
  have hpath : located.1 = [] := by
    unfold Finding.ofPlain at hlocated
    split at hlocated
    · cases hlocated
    · rw [List.mem_singleton.1 hlocated]
    · rw [List.mem_singleton.1 hlocated]
    · rw [List.mem_singleton.1 hlocated]
    · split at hlocated
      · rw [List.mem_singleton.1 hlocated]
      · rw [List.mem_singleton.1 hlocated]
  rw [hpath]
  exact Step.bareIsMedia_nil

/-- A condition that is written as a key of its own asks for something. -/
theorem Query.condition_ofCondition_ne_nil {key : Text}
    (h : opensCondition key = true) (kind : QueryKind) :
    (Query.ofCondition kind key.trim).condition ≠ [] := by
  intro hnil
  have hblank := Text.collapseSpaces_eq_nil_iff.1 hnil
  have hhead : key.trim.head? = some '(' := beq_iff_eq.1 h
  exact absurd (hblank '(' (List.mem_of_mem_head? hhead)) (by decide)

/-- A keyword alone may be in front of what was found if it is `@media`. -/
theorem Located.bareIsMedia_behind_guarded {query : Query}
    {found : List Located} (h : ∀ located ∈ found, BareIsMedia located.1)
    (hquery : query.condition = [] → query.kind = .media) :
    ∀ located ∈ found.map (behind (.guarded query)),
      BareIsMedia located.1 := by
  intro located hlocated
  obtain ⟨inner, hinner, rfl⟩ := List.mem_map.1 hlocated
  exact (h inner hinner).cons_guarded hquery

mutual

/-- On the paths of a style tree no keyword is bare but `@media`. -/
theorem Style.bareIsMedia_findings (style : List (Text × Value)) :
    ∀ located ∈ Style.findings style, BareIsMedia located.1 := by
  cases style with
  | nil => exact fun _ hlocated => nomatch hlocated
  | cons entry rest =>
    rw [Style.findings, List.forall_mem_append]
    exact ⟨Style.bareIsMedia_findingsOfEntry entry,
      Style.bareIsMedia_findings rest⟩
termination_by structural style

theorem Style.bareIsMedia_findingsOfEntry (entry : Text × Value) :
    ∀ located ∈ Style.findingsOfEntry entry, BareIsMedia located.1 := by
  cases entry with
  | mk key value => exact Style.bareIsMedia_findingsOfValue key value
termination_by structural entry

/-- A keyword with a condition is a step of its own. One without is handed down
to what is inside of it. -/
theorem Style.bareIsMedia_findingsOfValue (key : Text) (value : Value) :
    ∀ located ∈ Style.findingsOfValue key value, BareIsMedia located.1 := by
  cases value with
  | null => exact fun _ hlocated => nomatch hlocated
  | object body =>
    rw [Style.findingsOfValue]
    cases Role.ofKey key with
    | className => exact fun _ hlocated => nomatch hlocated
    | query query =>
      dsimp only
      by_cases hbare : query.condition.isEmpty = true
      · rw [if_pos hbare]
        exact Style.bareIsMedia_findingsInBare query body
      · rw [if_neg hbare]
        exact Located.bareIsMedia_behind_guarded
          (Style.bareIsMedia_findings body)
          fun hnil => absurd (List.isEmpty_iff.2 hnil) hbare
    | self => exact Style.bareIsMedia_findings body
    | atRule =>
      intro located hlocated
      rw [List.mem_singleton.1 hlocated]
      exact Step.bareIsMedia_nil
    | name name =>
      intro located hlocated
      cases name with
      | nil =>
        rw [List.mem_singleton.1 hlocated]
        exact Step.bareIsMedia_nil
      | cons c name =>
        obtain ⟨inner, hinner, rfl⟩ := List.mem_map.1 hlocated
        exact (Style.bareIsMedia_findings body inner hinner).cons_nested _
  | bool flag => exact Finding.bareIsMedia_ofPlain key (.bool flag)
  | number number => exact Finding.bareIsMedia_ofPlain key (.number number)
  | text text => exact Finding.bareIsMedia_ofPlain key (.text text)
  | array items => exact Finding.bareIsMedia_ofPlain key (.array items)
termination_by structural value

theorem Style.bareIsMedia_findingsInBare (bare : Query)
    (body : List (Text × Value)) :
    ∀ located ∈ Style.findingsInBare bare body, BareIsMedia located.1 := by
  cases body with
  | nil => exact fun _ hlocated => nomatch hlocated
  | cons entry rest =>
    rw [Style.findingsInBare, List.forall_mem_append]
    exact ⟨Style.bareIsMedia_findingsOfBareEntry bare entry,
      Style.bareIsMedia_findingsInBare bare rest⟩
termination_by structural body

/-- The keyword alone is a step only if it is `@media`. -/
theorem Style.bareIsMedia_findingsOfBareEntry (bare : Query)
    (entry : Text × Value) :
    ∀ located ∈ Style.findingsOfBareEntry bare entry,
      BareIsMedia located.1 := by
  cases entry with
  | mk key value =>
    rw [Style.findingsOfBareEntry]
    cases hopens : opensCondition key with
    | true =>
      rw [if_pos rfl]
      exact Style.bareIsMedia_findingsOfCondition bare.kind hopens value
    | false =>
      rw [if_neg Bool.false_ne_true]
      by_cases hkind : bare.kind = .media
      · rw [if_pos hkind]
        exact Located.bareIsMedia_behind_guarded
          (Style.bareIsMedia_findingsOfValue key value) fun _ => hkind
      · rw [if_neg hkind]
        intro located hlocated
        -- in any other keyword the entry is refused where it stands
        split at hlocated
        · cases hlocated
        · rw [List.mem_singleton.1 hlocated]
          exact Step.bareIsMedia_nil
termination_by structural entry

/-- A condition that opens with a bracket is no keyword alone. -/
theorem Style.bareIsMedia_findingsOfCondition (kind : QueryKind) {key : Text}
    (hopens : opensCondition key = true) (value : Value) :
    ∀ located ∈ Style.findingsOfCondition kind key value,
      BareIsMedia located.1 := by
  cases value with
  | object body =>
    exact Located.bareIsMedia_behind_guarded (Style.bareIsMedia_findings body)
      fun hnil => absurd hnil (Query.condition_ofCondition_ne_nil hopens kind)
  | _ =>
    intro located hlocated
    rw [List.mem_singleton.1 hlocated]
    exact Step.bareIsMedia_nil
termination_by structural value

end

-- ============================================================ rules

/-- The rule is inside of an at-rule that asks for something. -/
def Rule.IsGuarded (rule : Rule) : Prop :=
  ∃ guard, rule.guard = some guard ∧ guard.condition ≠ []

/-- The path goes through a conditional that asks for something. -/
def Step.HasCondition (path : List Step) : Prop :=
  ∃ query, .guarded query ∈ path ∧ query.condition ≠ []

/-- A rule below a condition is guarded unless the path loses the guard. -/
theorem Rule.isGuarded_iff_of_path {rule : Rule} {path : List Step}
    (hguard : rule.guard = Step.guard none path) (hmedia : BareIsMedia path)
    (h : Step.HasCondition path) :
    rule.IsGuarded ↔ ¬ Step.LosesGuard path := by
  obtain ⟨query, hmem, hquery⟩ := h
  obtain ⟨last, hlast, hloses⟩ := Step.exists_guard hmedia hmem hquery
  rw [← hloses]
  constructor
  · rintro ⟨guard, hsome, hne⟩
    rw [hguard, hlast] at hsome
    injection hsome with heq
    rwa [heq]
  · intro hne
    exact ⟨last, hguard.trans hlast, hne⟩

/-- A condition is lost in a bare `@media` inside of another kind of condition
and nowhere else: an entry below a condition is emitted under one unless its
path loses it, a declaration of a rule is always that of such an entry, and a
walk that starts under a condition emits nothing without one as long as no
bare keyword interrupts it. -/
theorem Style.report_stays_guarded (style : Style) (root : Text) :
    (∀ path d, (path, .declared d) ∈ Style.findings style →
      Step.HasCondition path →
      ∃ rule ∈ (Style.report style root).rules, d ∈ rule.declarations
        ∧ rule.selector = Step.selector root path
        ∧ (rule.IsGuarded ↔ ¬ Step.LosesGuard path))
    ∧ (∀ rule ∈ (Style.report style root).rules, ∀ d ∈ rule.declarations,
      ∃ path, (path, .declared d) ∈ Style.findings style
        ∧ rule.selector = Step.selector root path
        ∧ (Step.HasCondition path →
          (rule.IsGuarded ↔ ¬ Step.LosesGuard path)))
    ∧ ∀ (selector : Text) (active : Query) (items : List Item),
      active.condition ≠ [] →
      (∀ located ∈ Item.findingsAll items,
        Step.Uninterrupted active located.1) →
      ∀ rule ∈ (Report.ofItems selector (some active) items).rules,
        rule.IsGuarded := by
  refine ⟨?_, ?_, ?_⟩
  · intro path d hmem hcondition
    have hmedia : BareIsMedia path := Style.bareIsMedia_findings style _ hmem
    obtain ⟨rule, hrule, hd, hguard, hselector⟩ :=
      Style.exists_rule_of_mem_findings hmem root
    exact ⟨rule, hrule, hd, hselector,
      Rule.isGuarded_iff_of_path hguard hmedia hcondition⟩
  · intro rule hrule d hd
    obtain ⟨path, hmem, hguard, hselector⟩ :=
      Style.exists_path_of_mem_report hrule hd
    have hmedia : BareIsMedia path := Style.bareIsMedia_findings style _ hmem
    exact ⟨path, hmem, hselector.symm,
      Rule.isGuarded_iff_of_path hguard.symm hmedia⟩
  · intro selector active items hactive hitems rule hrule
    obtain ⟨located, hlocated, hguard, -⟩ :=
      Report.exists_path_of_mem_ofItems hrule
    -- without an interruption the condition lasts to the end of the path
    obtain ⟨guard, hsome, hne⟩ := (hitems located hlocated).guard hactive
    exact ⟨guard, hguard.symm.trans hsome, hne⟩

/-- A bare `@media` inside of a condition of its own kind leaves it in
force. -/
theorem report_stays_guarded_below_bare_media :
    let style := Style.below ["@media (width > 1px)", "@media", "&:hover"]
    let path : List Step := [.guarded ⟨.media, "(width > 1px)".toList⟩,
      .guarded ⟨.media, []⟩, .nested "&:hover".toList]
    (path, .declared ⟨"color".toList, "red".toList⟩) ∈ Style.findings style
    ∧ Step.HasCondition path
    ∧ ∃ rule ∈ (Style.report style ".r".toList).rules,
        rule.selector = ".r:hover".toList ∧ rule.IsGuarded := by
  intro style path
  have hmem : (path, .declared ⟨"color".toList, "red".toList⟩)
      ∈ Style.findings style := by decide +kernel
  have hcondition : Step.HasCondition path :=
    ⟨⟨.media, "(width > 1px)".toList⟩, List.mem_cons_self .., by decide⟩
  obtain ⟨rule, hrule, -, hselector, hguarded⟩ :=
    (Style.report_stays_guarded style ".r".toList).1 path _ hmem hcondition
  refine ⟨hmem, hcondition, rule, hrule, ?_, hguarded.2 ?_⟩
  · rw [hselector]
    decide +kernel
  · rintro ⟨above, query, below, bare, heq, hquery, hother, -, hbelow⟩
    have hlast : (⟨.media, "(width > 1px)".toList⟩ : Query) = query :=
      (@Step.last_condition_unique [] _ _ above below query heq (by decide)
        (by simp [Step.AllBare]) hquery hbelow).1
    exact hother (hlast ▸ rfl)

/-- Inside of another kind of condition it takes its place, and the entry is
emitted without one. -/
theorem guard_lost_in_bare_media :
    let style := Style.below ["@container (width > 1px)", "@media"]
    let path : List Step := [.guarded ⟨.container, "(width > 1px)".toList⟩,
      .guarded ⟨.media, []⟩]
    (path, .declared ⟨"color".toList, "red".toList⟩) ∈ Style.findings style
    ∧ Step.HasCondition path
    ∧ (Style.report style ".r".toList).rules
      = [⟨some ⟨.media, []⟩, ".r".toList,
          [⟨"color".toList, "red".toList⟩]⟩]
    ∧ ∀ rule ∈ (Style.report style ".r".toList).rules, ¬ rule.IsGuarded := by
  intro style path
  have hmem : (path, .declared ⟨"color".toList, "red".toList⟩)
      ∈ Style.findings style := by decide +kernel
  have hcondition : Step.HasCondition path :=
    ⟨⟨.container, "(width > 1px)".toList⟩, List.mem_cons_self .., by decide⟩
  have hrules : (Style.report style ".r".toList).rules
      = [⟨some ⟨.media, []⟩, ".r".toList,
          [⟨"color".toList, "red".toList⟩]⟩] := by decide +kernel
  refine ⟨hmem, hcondition, hrules, ?_⟩
  rintro rule hrule ⟨guard, hsome, hne⟩
  rw [hrules] at hrule
  rw [List.mem_singleton.1 hrule] at hsome
  injection hsome with heq
  exact hne (heq ▸ rfl)

end StyleTree
