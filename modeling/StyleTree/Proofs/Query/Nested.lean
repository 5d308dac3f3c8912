/-
Nests of queries. Where several queries of one kind are nested, each
alternative that is in force inside of them takes one alternative of each
(`Reads.foldl_merge`). One more query around a nest adds its tests in front, as
long as there are no names: what was asked for is still asked for.

Names make the difference, since an alternative with another name than the one
that leads so far replaces all that is around it. So the two runs, with and
without the outermost alternative, are compared by the names that lead them:

- they are led alike, and stay so (`suffix_foldl_of_name_eq`);
- only the outer one is led, by the outermost name (`suffix_foldl_of_led`). If
  the first name further in is the same, they are led alike from there on; if
  it is another one, the outer run starts anew and the other does not. Only a
  third name brings them together again (`foldl_eq_of_renamed`).

What is left is the case in which tests are lost (`Overruled`): an outermost
name, no name below it, and then just one name, which is another one.
-/
import StyleTree.Proofs.Query.Conjunction
import StyleTree.Proofs.Text.CommaList

namespace StyleTree.Query

variable {kind : QueryKind}

-- ======================================================= what is in force

/-- The query is of a kind, and lists alternatives. -/
def Reads (kind : QueryKind) (query : Query) (as : List Alternative) : Prop :=
  query.kind = kind ∧ Lists kind query.condition as

/-- Merging two conditions multiplies their alternatives. -/
theorem Reads.merge {outer inner : Query} {os is : List Alternative}
    (houter : Reads kind outer os) (hinner : Reads kind inner is) :
    Reads kind (outer.merge inner) (multiply Alternative.both os is) := by
  obtain ⟨outerKind, outerCondition⟩ := outer
  obtain ⟨innerKind, innerCondition⟩ := inner
  obtain ⟨rfl, houter⟩ := houter
  obtain ⟨rfl, hinner⟩ := hinner
  refine ⟨kind_merge _ _, ?_⟩
  rw [merge_eq_product houter hinner]
  exact lists_intercalate (houter.product_ne_nil hinner)
    (wellFormed_product houter.wellFormed hinner.wellFormed)

/-- The alternatives in force inside of a nest: one of each list, in all ways,
each put into the one around it. -/
def nests (as : List Alternative) (inner : List (List Alternative)) :
    List Alternative :=
  as.flatMap fun a => (choices inner).map fun chosen => chosen.foldl .both a

/-- A nest of any depth lists what is in force inside of it. -/
theorem Reads.foldl_merge {outer : Query} {inner : List Query}
    {as : List Alternative} {lists : List (List Alternative)}
    (houter : Reads kind outer as)
    (hinner : List.Forall₂ (Reads kind) inner lists) :
    Reads kind (inner.foldl Query.merge outer) (nests as lists) :=
  foldl_of_step (fun ho hi => ho.merge hi) houter hinner

-- =============================================== one step of two runs

namespace Alternative

variable {a b outer inner : Alternative} {chosen : List Alternative}
  {name : Text}

/-- The names among some alternatives, in order. -/
def names (chosen : List Alternative) : List Text :=
  chosen.filterMap Alternative.name

theorem names_cons_of_none (h : a.name = none) :
    names (a :: chosen) = names chosen :=
  List.filterMap_cons_none h

theorem names_cons_of_some (h : a.name = some name) :
    names (a :: chosen) = name :: names chosen :=
  List.filterMap_cons_some h

theorem both_of_name_eq_none (h : inner.name = none) :
    outer.both inner = ⟨outer.name, outer.tests ++ inner.tests⟩ := by
  rw [both_of_not_clashes (by simp [Clashes, h]), h, Option.or_none]

theorem both_of_outer_name_eq_none (h : outer.name = none) :
    outer.both inner = ⟨inner.name, outer.tests ++ inner.tests⟩ := by
  rw [both_of_not_clashes (by simp [Clashes, h]), h, Option.none_or]

theorem both_of_name_eq (h : outer.name = inner.name) :
    outer.both inner = ⟨inner.name, outer.tests ++ inner.tests⟩ := by
  rw [both_of_not_clashes (by simp [Clashes, h]), h, Option.or_self]

/-- Of two different names the inner alternative is kept. -/
theorem both_of_name_ne {name' : Text} (houter : outer.name = some name)
    (hinner : inner.name = some name') (h : name' ≠ name) :
    outer.both inner = inner :=
  if_pos (by simpa [Clashes, houter, hinner] using Ne.symm h)

/-- Runs that are led alike go on alike. -/
theorem both_agree (hname : a.name = b.name) (h : b.tests <:+ a.tests)
    (inner : Alternative) : (a.both inner).name = (b.both inner).name
      ∧ (b.both inner).tests <:+ (a.both inner).tests := by
  by_cases hclash : a.Clashes inner
  · have hclash' : b.Clashes inner := by rwa [Clashes, ← hname]
    rw [both, both, if_pos hclash, if_pos hclash']
    exact ⟨rfl, List.suffix_rfl⟩
  · have hclash' : ¬ b.Clashes inner := by rwa [Clashes, ← hname]
    rw [both_of_not_clashes hclash, both_of_not_clashes hclash', hname]
    obtain ⟨front, hfront⟩ := h
    exact ⟨rfl, front, by rw [← hfront, List.append_assoc]⟩

-- ========================================================== whole runs

/-- More tests in front stay in front, if the names are the same from the
start. -/
theorem suffix_foldl_of_name_eq (hname : a.name = b.name)
    (h : b.tests <:+ a.tests) :
    (chosen.foldl both b).tests <:+ (chosen.foldl both a).tests := by
  induction chosen generalizing a b with
  | nil => exact h
  | cons inner rest ih =>
    obtain ⟨hname, htests⟩ := both_agree hname h inner
    exact ih hname htests

/-- Runs that are led by one name come together at another one. -/
theorem foldl_eq_of_renamed (ha : a.name = some name) (hb : b.name = some name)
    (h : ∃ other ∈ names chosen, other ≠ name) :
    chosen.foldl both a = chosen.foldl both b := by
  induction chosen generalizing a b with
  | nil =>
    obtain ⟨other, hother, -⟩ := h
    cases hother
  | cons inner rest ih =>
    rw [List.foldl_cons, List.foldl_cons]
    cases hinner : inner.name with
    | none =>
      rw [names_cons_of_none hinner] at h
      rw [both_of_name_eq_none hinner, both_of_name_eq_none hinner]
      exact ih ha hb h
    | some name' =>
      by_cases heq : name' = name
      · subst heq
        rw [both_of_name_eq (ha.trans hinner.symm),
          both_of_name_eq (hb.trans hinner.symm)]
        refine ih hinner hinner ?_
        obtain ⟨other, hother, hne⟩ := h
        rw [names_cons_of_some hinner] at hother
        exact ⟨other, (List.mem_cons.1 hother).resolve_left hne, hne⟩
      · rw [both_of_name_ne ha hinner heq, both_of_name_ne hb hinner heq]

/-- There is a name further in than a given one, and just one, which is another
one. -/
def Renames (name : Text) (chosen : List Alternative) : Prop :=
  ∃ other ∈ names chosen, other ≠ name ∧ ∀ name' ∈ names chosen, name' = other

instance (name : Text) (chosen : List Alternative) :
    Decidable (Renames name chosen) :=
  inferInstanceAs (Decidable (∃ other ∈ names chosen, _ ∧ _))

/-- More tests in front stay in front of a run without a name too, unless there
is another name further in, and just one. -/
theorem suffix_foldl_of_led (ha : a.name = some name) (hb : b.name = none)
    (h : b.tests <:+ a.tests) (hnames : ¬ Renames name chosen) :
    (chosen.foldl both b).tests <:+ (chosen.foldl both a).tests := by
  induction chosen generalizing a b with
  | nil => exact h
  | cons inner rest ih =>
    obtain ⟨front, hfront⟩ := h
    have hstep : b.tests ++ inner.tests <:+ a.tests ++ inner.tests :=
      ⟨front, by rw [← hfront, List.append_assoc]⟩
    rw [List.foldl_cons, List.foldl_cons, both_of_outer_name_eq_none hb]
    cases hinner : inner.name with
    | none =>
      rw [Renames, names_cons_of_none hinner] at hnames
      rw [both_of_name_eq_none hinner]
      exact ih ha rfl hstep hnames
    | some name' =>
      by_cases heq : name' = name
      · subst heq
        rw [both_of_name_eq (ha.trans hinner.symm), hinner]
        exact suffix_foldl_of_name_eq rfl hstep
      · -- the outer run starts anew here, so a third name has to follow
        have hthird : ∃ other ∈ names rest, other ≠ name' := by
          by_contra hnone
          refine hnames ⟨name', ?_, heq, fun other hother => ?_⟩
          · rw [names_cons_of_some hinner]
            exact List.mem_cons_self ..
          · rw [names_cons_of_some hinner] at hother
            rcases List.mem_cons.1 hother with rfl | hother
            · rfl
            · by_contra hne
              exact hnone ⟨other, hother, hne⟩
        have hmeet : rest.foldl both (a.both inner)
            = rest.foldl both ⟨some name', b.tests ++ inner.tests⟩ := by
          rw [both_of_name_ne ha hinner heq]
          exact foldl_eq_of_renamed hinner rfl hthird
        exact hmeet ▸ List.suffix_rfl

/-- Under one name all tests add up. -/
theorem tests_foldl_of_name (ha : a.name = some name)
    (h : ∀ name' ∈ names chosen, name' = name) :
    (chosen.foldl both a).tests = a.tests ++ chosen.flatMap tests := by
  induction chosen generalizing a with
  | nil => exact (List.append_nil _).symm
  | cons inner rest ih =>
    rw [List.foldl_cons, List.flatMap_cons, ← List.append_assoc]
    cases hinner : inner.name with
    | none =>
      rw [names_cons_of_none hinner] at h
      rw [both_of_name_eq_none hinner]
      exact ih ha h
    | some name' =>
      rw [names_cons_of_some hinner] at h
      obtain ⟨rfl, hrest⟩ := List.forall_mem_cons.1 h
      rw [both_of_name_eq (ha.trans hinner.symm)]
      exact ih hinner hrest

/-- A run that is renamed once has the tests from the new name on. -/
theorem tests_foldl_of_renames (ha : a.name = some name)
    (h : Renames name chosen) : (chosen.foldl both a).tests
      = (chosen.dropWhile (·.name.isNone)).flatMap tests := by
  induction chosen generalizing a with
  | nil =>
    obtain ⟨other, hother, -⟩ := h
    cases hother
  | cons inner rest ih =>
    rw [List.foldl_cons, List.dropWhile_cons]
    cases hinner : inner.name with
    | none =>
      rw [Renames, names_cons_of_none hinner] at h
      rw [both_of_name_eq_none hinner]
      exact ih ha h
    | some name' =>
      obtain ⟨other, -, hne, hall⟩ := h
      rw [names_cons_of_some hinner] at hall
      obtain ⟨rfl, hrest⟩ := List.forall_mem_cons.1 hall
      rw [both_of_name_ne ha hinner hne]
      exact tests_foldl_of_name hinner hrest

end Alternative

-- ============================================== one more query around

/-- The outermost alternative has a name and the one inside of it none, and
those further in have just one name, another than the outermost. -/
def Overruled (outermost outer : Alternative) (chosen : List Alternative) :
    Prop :=
  outer.name = none ∧ ∃ name ∈ outermost.name, Alternative.Renames name chosen

instance (outermost outer : Alternative) (chosen : List Alternative) :
    Decidable (Overruled outermost outer chosen) :=
  inferInstanceAs (Decidable (_ ∧ ∃ name ∈ outermost.name, _))

/-- An outermost alternative comes in front of what is asked for inside of it,
unless it is overruled. Then the tests between its name and the next are lost
with its own. -/
theorem tests_foldl_both (outermost outer : Alternative)
    (chosen : List Alternative) :
    (¬ Overruled outermost outer chosen →
      (chosen.foldl .both outer).tests
        <:+ ((outer :: chosen).foldl .both outermost).tests)
    ∧ (Overruled outermost outer chosen →
      ((outer :: chosen).foldl .both outermost).tests
        = (chosen.dropWhile (·.name.isNone)).flatMap Alternative.tests) := by
  have hadded : outer.tests <:+ outermost.tests ++ outer.tests :=
    List.suffix_append ..
  rw [List.foldl_cons]
  constructor
  · intro hnot
    cases houter : outer.name with
    | none =>
      rw [Alternative.both_of_name_eq_none houter]
      cases houtermost : outermost.name with
      | none => exact Alternative.suffix_foldl_of_name_eq houter.symm hadded
      | some name =>
        refine Alternative.suffix_foldl_of_led rfl houter hadded
          fun hnames => ?_
        exact hnot ⟨houter, name, houtermost, hnames⟩
    | some name' =>
      -- a clash drops the outermost one, and nothing else can be lost
      by_cases hclash : outermost.Clashes outer
      · have hdropped : outermost.both outer = outer := if_pos hclash
        exact hdropped.symm ▸ List.suffix_rfl
      · rw [Alternative.both_of_not_clashes hclash]
        refine Alternative.suffix_foldl_of_name_eq ?_ hadded
        cases houtermost : outermost.name with
        | none => exact Option.none_or
        | some name =>
          have heq : outermost.name = outer.name := by
            by_contra hne
            exact hclash ⟨by simp [houtermost], by simp [houter], hne⟩
          rw [← heq, houtermost]
          rfl
  · rintro ⟨houter, name, houtermost, hnames⟩
    rw [Alternative.both_of_name_eq_none houter]
    exact Alternative.tests_foldl_of_renames houtermost hnames

/-- With one more query around a nest, each alternative in force holds all
tests of one that was in force before, unless it is overruled. -/
theorem nests_keep_inner_tests {outermost outer : Query} {inner : List Query}
    {os is : List Alternative} {lists : List (List Alternative)}
    (houtermost : Reads kind outermost os) (houter : Reads kind outer is)
    (hinner : List.Forall₂ (Reads kind) inner lists) :
    Reads kind ((outer :: inner).foldl merge outermost)
      (nests os (is :: lists))
    ∧ Reads kind (inner.foldl merge outer) (nests is lists)
    ∧ ∀ a ∈ nests os (is :: lists), ∃ o ∈ os, ∃ i ∈ is,
      ∃ chosen ∈ choices lists,
        a = (i :: chosen).foldl .both o
        ∧ chosen.foldl .both i ∈ nests is lists
        ∧ (¬ Overruled o i chosen →
          (chosen.foldl .both i).tests <:+ a.tests)
        ∧ (Overruled o i chosen → a.tests
          = (chosen.dropWhile (·.name.isNone)).flatMap Alternative.tests) := by
  refine ⟨houtermost.foldl_merge (.cons houter hinner),
    houter.foldl_merge hinner, fun a ha => ?_⟩
  obtain ⟨o, ho, ha⟩ := List.mem_flatMap.1 ha
  obtain ⟨all, hall, rfl⟩ := List.mem_map.1 ha
  obtain ⟨i, hi, chosen, hchosen, rfl⟩ := mem_choices_cons.1 hall
  have hmem : chosen.foldl .both i ∈ nests is lists :=
    List.mem_flatMap.2 ⟨i, hi, List.mem_map_of_mem hchosen⟩
  exact ⟨o, ho, i, hi, chosen, hchosen, rfl, hmem, tests_foldl_both o i chosen⟩

/-- A name on the outside, which comes again further in, and an alternative
without one beside it. -/
theorem nests_keep_inner_tests_card :
    let outermost : Query := ⟨.container, "card (a), (b)".toList⟩
    let outer : Query := ⟨.container, "(c)".toList⟩
    let inner : Query := ⟨.container, "card (d)".toList⟩
    let os : List Alternative :=
      [⟨some "card".toList, ["(a)".toList]⟩, ⟨none, ["(b)".toList]⟩]
    let is : List Alternative := [⟨none, ["(c)".toList]⟩]
    let lists : List (List Alternative) :=
      [[⟨some "card".toList, ["(d)".toList]⟩]]
    Reads .container outermost os ∧ Reads .container outer is
    ∧ List.Forall₂ (Reads .container) [inner] lists
    ∧ ((outermost.merge outer).merge inner).condition
      = "card (a) and (c) and (d), card (b) and (c) and (d)".toList
    ∧ (outer.merge inner).condition = "card (c) and (d)".toList
    ∧ ∀ a ∈ nests os (is :: lists), ∃ b ∈ nests is lists,
      b.tests <:+ a.tests := by
  intro outermost outer inner os is lists
  have houtermost : Reads .container outermost os := by
    refine ⟨rfl, ?_⟩
    have hcut : outermost.condition
        = "card (a)".toList ++ ',' :: " (b)".toList := by
      decide +kernel
    rw [hcut]
    exact .cons (by decide +kernel) (.last (by decide +kernel))
  have houter : Reads .container outer is := ⟨rfl, .last (by decide +kernel)⟩
  have hinner : List.Forall₂ (Reads .container) [inner] lists :=
    .cons ⟨rfl, .last (by decide +kernel)⟩ .nil
  have hfree : ∀ o ∈ os, ∀ i ∈ is, ∀ chosen ∈ choices lists,
      ¬ Overruled o i chosen := by decide +kernel
  refine ⟨houtermost, houter, hinner, by decide +kernel, by decide +kernel,
    fun a ha => ?_⟩
  obtain ⟨o, ho, i, hi, chosen, hchosen, -, hmem, hkept, -⟩ :=
    (nests_keep_inner_tests houtermost houter hinner).2.2 a ha
  exact ⟨_, hmem, hkept (hfree o ho i hi chosen hchosen)⟩

/-- Between two names a test is lost: the outer name comes to lead it, and what
the outer name leads is not combined with the inner one. -/
theorem inner_test_lost_between_names :
    let outermost : Query := ⟨.container, "x (a)".toList⟩
    let outer : Query := ⟨.container, "(b)".toList⟩
    let inner : Query := ⟨.container, "y (c)".toList⟩
    Reads .container outermost [⟨some "x".toList, ["(a)".toList]⟩]
    ∧ Reads .container outer [⟨none, ["(b)".toList]⟩]
    ∧ Reads .container inner [⟨some "y".toList, ["(c)".toList]⟩]
    ∧ (outer.merge inner).condition = "y (b) and (c)".toList
    ∧ ((outermost.merge outer).merge inner).condition = "y (c)".toList
    ∧ ∃ part ∈ alternatives ((outermost.merge outer).merge inner).condition,
        ∀ part' ∈ alternatives (outer.merge inner).condition,
          ¬ testsOf part' ⊆ testsOf part := by
  refine ⟨⟨rfl, .last (by decide +kernel)⟩, ⟨rfl, .last (by decide +kernel)⟩,
    ⟨rfl, .last (by decide +kernel)⟩, ?_⟩
  decide +kernel

end StyleTree.Query
