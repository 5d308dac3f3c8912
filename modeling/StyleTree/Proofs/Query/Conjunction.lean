/-
Merging two conditions of one kind asks for both. They are lists of
alternatives, and the merged one is their product: each alternative of the
outer list with each of the inner one (`merge_eq_product`). As long as no two
names differ, one of the pairs holds exactly if an alternative of either list
does (`exists_mem_product_iff`).

Merging works on the texts. To join two alternatives by ` and ` is to put their
tests one after the other, if there is no name. In a condition on containers
the name is told from the tests by its first word (`splitContainerName_text`)
and comes to lead the tests of both sides (`led_eq_text`).
-/
import StyleTree.Proofs.Query.Alternatives
import StyleTree.Proofs.Query.Merge

namespace StyleTree.Query

variable {kind : QueryKind} {o i a : Alternative} {os is : List Alternative}
  {outer inner : Text}

-- ================================================ both of two alternatives

namespace Alternative

/-- Both have a name, and not the same. -/
def Clashes (o i : Alternative) : Prop :=
  o.name.isSome ∧ i.name.isSome ∧ o.name ≠ i.name

instance (o i : Alternative) : Decidable (o.Clashes i) :=
  inferInstanceAs (Decidable (_ ∧ _ ∧ _))

/-- The tests of the outer and then those of the inner alternative, led by the
name that there is. If there are two, the inner alternative. -/
def both (o i : Alternative) : Alternative :=
  if o.Clashes i then i else ⟨o.name.or i.name, o.tests ++ i.tests⟩

/-- Names that do not clash are one name, and the tests are put together. -/
theorem both_of_not_clashes (h : ¬ o.Clashes i) :
    o.both i = ⟨o.name.or i.name, o.tests ++ i.tests⟩ :=
  if_neg h

/-- Both of two well-formed alternatives are one. -/
theorem WellFormed.both (ho : o.WellFormed kind) (hi : i.WellFormed kind) :
    (o.both i).WellFormed kind := by
  by_cases hclash : o.Clashes i
  · rwa [Alternative.both, if_pos hclash]
  · rw [both_of_not_clashes hclash]
    constructor
    case named =>
      intro name hname
      rcases Option.or_eq_some_iff.1 hname with houter | ⟨-, hinner⟩
      · exact ho.named name houter
      · exact hi.named name hinner
    case tested => exact List.forall_mem_append.2 ⟨ho.tested, hi.tested⟩
    case asks =>
      intro hnone
      obtain ⟨houter, -⟩ := Option.or_eq_none_iff.1 hnone
      exact List.append_ne_nil_of_left_ne_nil (ho.asks houter) _

end Alternative

/-- Each alternative of one list with each of another. -/
def product (os is : List Alternative) : List Alternative :=
  os.flatMap fun o => is.map o.both

-- ==================================================== merging two parts

/-- A name in front of a blank is split off. -/
theorem splitContainerName_of_isName {name rest : Text} (h : IsName name)
    (hrest : ∀ c ∈ rest.head?, isBlank c = true) :
    splitContainerName (name ++ rest) = (some name, rest.trim) := by
  have hfirst : (name ++ rest).takeWhile (!isBlank ·) = name := by
    rw [List.takeWhile_append_of_pos fun c hc => by simp [(h.1.2 c hc).1]]
    cases rest with
    | nil => simp
    | cons c rest => simp [hrest c rfl]
  have hbracket : '(' ∉ name := by
    intro hmem
    exact absurd (h.1.2 '(' hmem).2.2 (by decide)
  have hname : (!name.isEmpty && '(' ∉ name
      && name.map Char.toLower != "not".toList) = true := by
    rw [Bool.and_eq_true, bne_iff_ne]
    exact ⟨by simp [h.1.1, hbracket], h.2⟩
  unfold splitContainerName
  rw [hfirst, if_pos hname, List.drop_left]

/-- A bracket starts no name. -/
theorem splitContainerName_of_bracket (rest : Text) :
    splitContainerName ('(' :: rest) = (none, '(' :: rest) := by
  have hfirst : ('(' :: rest).takeWhile (!isBlank ·)
      = '(' :: rest.takeWhile (!isBlank ·) :=
    List.takeWhile_cons_of_pos (by decide)
  unfold splitContainerName
  rw [hfirst, if_neg (by simp)]

/-- The name and the tests of an alternative are told apart. -/
theorem splitContainerName_text (h : a.WellFormed kind) :
    splitContainerName a.text = (a.name, conjunction.intercalate a.tests) := by
  obtain ⟨_ | name, tests⟩ := a
  · obtain ⟨test, rest, rfl⟩ := List.exists_cons_of_ne_nil (h.asks rfl)
    obtain ⟨inner, rfl, -⟩ := h.tested test (List.mem_cons_self ..)
    obtain ⟨tail, htail⟩ := Text.prefix_intercalate_cons conjunction
      ('(' :: inner ++ [')']) rest
    show splitContainerName (conjunction.intercalate _) = _
    rw [← htail]
    exact splitContainerName_of_bracket _
  · have hname : IsName name := (h.named name rfl).2
    cases tests with
    | nil =>
      have hsplit := @splitContainerName_of_isName name [] hname (by simp)
      rwa [List.append_nil] at hsplit
    | cons test rest =>
      have htrimmed :
          Text.Trimmed (conjunction.intercalate (test :: rest)) := by
        apply Text.trimmed_intercalate
        intro test' hmem
        have htest : IsTest test' := h.tested test' hmem
        exact ⟨htest.trimmed, htest.ne_nil⟩
      have htrim : Text.trim (' ' :: conjunction.intercalate (test :: rest))
          = conjunction.intercalate (test :: rest) :=
        Text.trim_eq_self_iff.2 htrimmed
      show splitContainerName (name ++ ' ' :: conjunction.intercalate _) = _
      rw [splitContainerName_of_isName hname (by simp [isBlank]), htrim]

/-- A name in front of the tests of both sides leads all of them. -/
theorem led_eq_text (name : Text) {tests tests' : List Text}
    (h : ∀ test ∈ tests, IsTest test) (h' : ∀ test ∈ tests', IsTest test) :
    led name (conjunction.intercalate tests) (conjunction.intercalate tests')
      = Alternative.text ⟨some name, tests ++ tests'⟩ := by
  have hsome {test : Text} {rest : List Text}
      (hrest : ∀ test' ∈ test :: rest, IsTest test') :
      (conjunction.intercalate (test :: rest)).isEmpty = false := by
    have hne := (hrest test (List.mem_cons_self ..)).ne_nil
    simpa using Text.intercalate_cons_ne_nil hne conjunction rest
  -- the parts that are left out are those without a test
  unfold led
  cases tests with
  | nil =>
    cases tests' with
    | nil => rfl
    | cons test' rest' =>
      rw [List.filter_cons_of_neg (by simp),
        List.filter_cons_of_pos (by simp [hsome h'])]
      simp [Alternative.text]
  | cons test rest =>
    cases tests' with
    | nil =>
      rw [List.filter_cons_of_pos (by simp [hsome h]),
        List.filter_cons_of_neg (by simp)]
      simp [Alternative.text]
    | cons test' rest' =>
      rw [List.filter_cons_of_pos (by simp [hsome h]),
        List.filter_cons_of_pos (by simp [hsome h'])]
      show name ++ ' ' :: conjunction.intercalate [_, _]
        = name ++ ' ' :: conjunction.intercalate
          (test :: rest ++ test' :: rest')
      rw [Text.intercalate_append (List.cons_ne_nil _ _)
        (List.cons_ne_nil _ _),
        List.intercalate_cons_cons, List.intercalate_singleton]

/-- Without names, joining by `and` puts the tests together. -/
theorem conjoin_text (ho : o.WellFormed kind) (hi : i.WellFormed kind)
    (honame : o.name = none) (hiname : i.name = none) :
    conjoin o.text i.text = (o.both i).text := by
  have hne := ho.asks honame
  have hne' := hi.asks hiname
  obtain ⟨name, tests⟩ := o
  obtain ⟨name', tests'⟩ := i
  obtain rfl : name = none := honame
  obtain rfl : name' = none := hiname
  rw [Alternative.both_of_not_clashes (by simp [Alternative.Clashes])]
  exact (Text.intercalate_append hne hne' conjunction).symm

/-- What is merged of two alternatives is the text of both. -/
theorem mergePart_text (ho : o.WellFormed kind) (hi : i.WellFormed kind) :
    mergePart kind o.text i.text = (o.both i).text := by
  unfold mergePart
  split
  · rw [conjoinContainer_eq, splitContainerName_text ho,
      splitContainerName_text hi]
    have hled (name : Text) := led_eq_text name ho.tested hi.tested
    cases honame : o.name with
    | none =>
      cases hiname : i.name with
      | none => exact conjoin_text ho hi honame hiname
      | some name' =>
        rw [Alternative.both_of_not_clashes
          (by simp [Alternative.Clashes, honame]),
          honame, hiname]
        exact hled name'
    | some name =>
      cases hiname : i.name with
      | none =>
        rw [Alternative.both_of_not_clashes
          (by simp [Alternative.Clashes, hiname]),
          honame, hiname]
        exact hled name
      | some name' =>
        dsimp only
        -- two names are kept if they are one, and else clash
        by_cases heq : name = name'
        · rw [if_pos heq, Alternative.both_of_not_clashes
            (by simp [Alternative.Clashes, honame, hiname, heq]), honame]
          exact hled name
        · rw [if_neg heq, Alternative.both,
            if_pos (by simp [Alternative.Clashes, honame, hiname, heq])]
  · next hkind =>
    -- only a container has a name
    have hname {a : Alternative} (ha : a.WellFormed kind) : a.name = none := by
      rw [Option.eq_none_iff_forall_not_mem]
      intro name hmem
      exact hkind (ha.named name hmem).1
    exact conjoin_text ho hi (hname ho) (hname hi)

-- ============================================ merging two conditions

theorem wellFormed_product (ho : ∀ o ∈ os, o.WellFormed kind)
    (hi : ∀ i ∈ is, i.WellFormed kind) :
    ∀ a ∈ product os is, a.WellFormed kind := by
  intro a ha
  obtain ⟨o, houter, ha⟩ := List.mem_flatMap.1 ha
  obtain ⟨i, hinner, rfl⟩ := List.mem_map.1 ha
  exact (ho o houter).both (hi i hinner)

/-- What is merged is the product of the two lists. -/
theorem merge_eq_product (houter : Lists kind outer os)
    (hinner : Lists kind inner is) :
    merge ⟨kind, outer⟩ ⟨kind, inner⟩
      = ⟨kind,
        ", ".toList.intercalate ((product os is).map Alternative.text)⟩ := by
  have hmerge := @merge_eq ⟨kind, outer⟩ ⟨kind, inner⟩ rfl houter.ne_nil
    hinner.ne_nil
  rw [hmerge, houter.alternatives_eq, hinner.alternatives_eq]
  congr 2
  unfold product
  rw [List.flatMap_map, List.map_flatMap, List.flatMap_def, List.flatMap_def]
  congr 1
  apply List.map_congr_left
  intro o ho
  rw [List.map_map, List.map_map]
  apply List.map_congr_left
  intro i hi
  exact mergePart_text (houter.wellFormed o ho) (hinner.wellFormed i hi)

theorem Lists.product_ne_nil (houter : Lists kind outer os)
    (hinner : Lists kind inner is) : product os is ≠ [] := by
  have hcons {condition : Text} {as : List Alternative}
      (h : Lists kind condition as) : ∃ a rest, as = a :: rest := by
    cases h with
    | last => exact ⟨_, _, rfl⟩
    | cons => exact ⟨_, _, rfl⟩
  obtain ⟨o, os, rfl⟩ := hcons houter
  obtain ⟨i, is, rfl⟩ := hcons hinner
  exact List.cons_ne_nil _ _

/-- Without differing names, both lists are asked for. -/
theorem exists_mem_product_iff (h : ∀ o ∈ os, ∀ i ∈ is, ¬ o.Clashes i)
    (v : Text → Prop) :
    (∃ a ∈ product os is, ∀ test ∈ a.tests, v test)
      ↔ (∃ o ∈ os, ∀ test ∈ o.tests, v test)
        ∧ ∃ i ∈ is, ∀ test ∈ i.tests, v test := by
  have hboth {o i : Alternative} (ho : o ∈ os) (hi : i ∈ is) :
      (∀ test ∈ (o.both i).tests, v test)
        ↔ (∀ test ∈ o.tests, v test) ∧ ∀ test ∈ i.tests, v test := by
    rw [Alternative.both_of_not_clashes (h o ho i hi)]
    exact List.forall_mem_append
  constructor
  · rintro ⟨a, ha, hv⟩
    obtain ⟨o, ho, ha⟩ := List.mem_flatMap.1 ha
    obtain ⟨i, hi, rfl⟩ := List.mem_map.1 ha
    obtain ⟨houter, hinner⟩ := (hboth ho hi).1 hv
    exact ⟨⟨o, ho, houter⟩, i, hi, hinner⟩
  · rintro ⟨⟨o, ho, houter⟩, i, hi, hinner⟩
    refine ⟨o.both i, ?_, (hboth ho hi).2 ⟨houter, hinner⟩⟩
    exact List.mem_flatMap.2 ⟨o, ho, List.mem_map_of_mem hi⟩

/-- Two conditions of one kind are merged to the product of their lists, which
is their conjunction where no two names differ. -/
theorem merge_conjunction (houter : Lists kind outer os)
    (hinner : Lists kind inner is) :
    let merged := merge ⟨kind, outer⟩ ⟨kind, inner⟩
    merged = ⟨kind, ", ".toList.intercalate
        ((product os is).map Alternative.text)⟩
    ∧ Lists kind merged.condition (product os is)
    ∧ ((∀ o ∈ os, ∀ i ∈ is, ¬ o.Clashes i) → ∀ v : Text → Prop,
        Holds v merged.condition ↔ Holds v outer ∧ Holds v inner) := by
  intro merged
  have heq : merged = ⟨kind, _⟩ := merge_eq_product houter hinner
  have hmerged : Lists kind merged.condition (product os is) := by
    rw [heq]
    exact lists_intercalate (houter.product_ne_nil hinner)
      (wellFormed_product houter.wellFormed hinner.wellFormed)
  refine ⟨heq, hmerged, fun hnames v => ?_⟩
  rw [hmerged.holds_iff, houter.holds_iff, hinner.holds_iff]
  exact exists_mem_product_iff hnames v

/-- Lists with a name, with a name alone and without, and with commas, spaces
and brackets inside of literals and of tests. -/
theorem merge_conjunction_named :
    let outer := "card (a: \", (\") and (b), (c(1, 2) )".toList
    let inner := "card ,(d)".toList
    let os : List Alternative :=
      [⟨some "card".toList, ["(a: \", (\")".toList, "(b)".toList]⟩,
        ⟨none, ["(c(1, 2) )".toList]⟩]
    let is : List Alternative :=
      [⟨some "card".toList, []⟩, ⟨none, ["(d)".toList]⟩]
    Lists .container outer os ∧ Lists .container inner is
    ∧ (∀ o ∈ os, ∀ i ∈ is, ¬ o.Clashes i)
    ∧ merge ⟨.container, outer⟩ ⟨.container, inner⟩
      = ⟨.container, "card (a: \", (\") and (b), ".toList
          ++ "card (a: \", (\") and (b) and (d), ".toList
          ++ "card (c(1, 2) ), (c(1, 2) ) and (d)".toList⟩
    ∧ ∀ v : Text → Prop,
      Holds v (merge ⟨.container, outer⟩ ⟨.container, inner⟩).condition
        ↔ Holds v outer ∧ Holds v inner := by
  intro outer inner os is
  have houter : Lists .container outer os := by
    have hcut : outer = "card (a: \", (\") and (b)".toList
        ++ ',' :: " (c(1, 2) )".toList := by decide +kernel
    rw [hcut]
    exact .cons (by decide +kernel) (.last (by decide +kernel))
  have hinner : Lists .container inner is := by
    have hcut : inner = "card ".toList ++ ',' :: "(d)".toList := by
      decide +kernel
    rw [hcut]
    exact .cons (by decide +kernel) (.last (by decide +kernel))
  have hnames : ∀ o ∈ os, ∀ i ∈ is, ¬ o.Clashes i := by decide +kernel
  obtain ⟨heq, -, hholds⟩ := merge_conjunction houter hinner
  refine ⟨houter, hinner, hnames, heq.trans ?_, hholds hnames⟩
  decide +kernel

/-- In no spelling is the word `not` taken for a name. It stays with the test
behind it, where a name would have come to lead the condition. -/
theorem not_led_by_not :
    let o : Alternative := ⟨none, ["(a)".toList]⟩
    let i : Alternative := ⟨some "Not".toList, ["(b)".toList]⟩
    IsWord "Not".toList ∧ "Not".toList ≠ "not".toList
    ∧ (o.both i).text = "Not (a) and (b)".toList
    ∧ merge ⟨.container, o.text⟩ ⟨.container, i.text⟩
      = ⟨.container, "(a) and Not (b)".toList⟩ := by
  decide +kernel

end StyleTree.Query
