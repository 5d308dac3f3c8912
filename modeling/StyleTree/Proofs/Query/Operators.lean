/-
Merging conditions with the operators `not` and `or`. Merging joins two
alternatives by ` and ` as they are written, without brackets. Read again, the
`and` binds the last disjunct of the outer one to the first of the inner one
and leaves the others alone (`splice`); an outer `not` comes to negate the
inner tests as well, and an inner `not` stands where no formula has one.

So the merged condition asks for both only by chance, and what that takes is
`merge_is_conjunction_iff`: there is no `not`, and each disjunct that stays
alone has in it a disjunct of the other side anyway. To see that it takes so
much, let just the tests of one disjunct hold, or none at all.
-/
import StyleTree.Proofs.Query.Formula
import StyleTree.Proofs.Query.Merge

namespace StyleTree.Query

open Text (IsListOf)

variable {kind : QueryKind} {outer inner : Text} {v : Text → Prop}
  {d e : List Text} {f g o i : Formula} {fs os is : List Formula}

-- ====================================================== joining formulas

/-- The disjuncts of two formulas that are joined by `and`. It binds the last
of the first formula to the first of the second. -/
def splice (ds es : List (List Text)) : List (List Text) :=
  ds.dropLast ++ (ds.getLast?.getD [] ++ es.headD []) :: es.tail

theorem splice_concat_cons (ds : List (List Text)) (d e : List Text)
    (es : List (List Text)) :
    splice (ds ++ [d]) (e :: es) = ds ++ (d ++ e) :: es := by
  simp [splice]

namespace Formula

/-- Two formulas joined by `and`, if the second has no `not`. -/
def joined (o i : Formula) : Formula :=
  ⟨o.negated, splice o.disjuncts i.disjuncts⟩

/-- Spliced disjuncts are written with `and` where they meet. -/
theorem body_splice (ds : List (List Text)) (hd : d ≠ []) (he : e ≠ [])
    (es : List (List Text)) : body (splice (ds ++ [d]) (e :: es))
      = body (ds ++ [d]) ++ andWord :: body (e :: es) := by
  rw [splice_concat_cons]
  cases ds with
  | nil =>
    rw [List.nil_append, List.nil_append, body_cons, body_cons, body_cons,
      chain_append hd he]
    simp
  | cons first others =>
    rw [List.cons_append, List.cons_append, body_cons, body_cons, body_cons]
    simp [chain_append hd he]

namespace WellFormed

/-- The disjuncts of two formulas and of both joined. -/
theorem exists_joined (ho : o.WellFormed) (hi : i.WellFormed) :
    ∃ ds d e es, o.disjuncts = ds ++ [d] ∧ i.disjuncts = e :: es
      ∧ (o.joined i).disjuncts = ds ++ (d ++ e) :: es ∧ d ≠ [] ∧ e ≠ [] := by
  rcases List.eq_nil_or_concat o.disjuncts with hnil | ⟨ds, d, hds⟩
  · exact absurd hnil ho.asks
  · obtain ⟨e, es, hes⟩ := List.exists_cons_of_ne_nil hi.asks
    rw [List.concat_eq_append] at hds
    refine ⟨ds, d, e, es, hds, hes, ?_, ?_, ?_⟩
    · rw [Formula.joined, hds, hes, splice_concat_cons]
    · exact (ho.tested d (by rw [hds]; simp)).1
    · exact (hi.tested e (by rw [hes]; simp)).1

/-- Joining two well-formed formulas gives one. -/
theorem joined (ho : o.WellFormed) (hi : i.WellFormed) :
    (o.joined i).WellFormed := by
  obtain ⟨ds, d, e, es, hds, hes, hdisjuncts, hd, -⟩ := ho.exists_joined hi
  have htested : ∀ c, (c ∈ o.disjuncts ∨ c ∈ i.disjuncts) →
      c ≠ [] ∧ ∀ test ∈ c, IsTest test :=
    fun c hc => hc.elim (ho.tested c) (hi.tested c)
  rw [hds, hes] at htested
  constructor
  case asks => simp [hdisjuncts]
  case tested =>
    rw [hdisjuncts]
    intro c hc
    rcases List.mem_append.1 hc with hc | hc
    · exact htested c (.inl (List.mem_append_left _ hc))
    · rcases List.mem_cons.1 hc with rfl | hc
      · have hlast := (htested d (.inl (by simp))).2
        have hfirst := (htested e (.inr (by simp))).2
        exact ⟨List.append_ne_nil_of_left_ne_nil hd _,
          List.forall_mem_append.2 ⟨hlast, hfirst⟩⟩
      · exact htested c (.inr (List.mem_cons_of_mem _ hc))

theorem of_mem_words_and (ho : o.WellFormed) (hi : i.WellFormed) {word : Text}
    (hword : word ∈ o.words ++ andWord :: i.words) :
    IsTest word ∨ IsWord word := by
  rcases List.mem_append.1 hword with hword | hword
  · exact ho.of_mem_words hword
  · rcases List.mem_cons.1 hword with rfl | hword
    · exact .inr (by decide)
    · exact hi.of_mem_words hword

/-- Joining texts joins the words. -/
theorem conjoin_text (ho : o.WellFormed) (hi : i.WellFormed) :
    conjoin o.text i.text
      = [' '].intercalate (o.words ++ andWord :: i.words) := by
  rw [Text.intercalate_append ho.words_ne_nil (List.cons_ne_nil _ _),
    Text.intercalate_cons_of_ne_nil hi.words_ne_nil]
  simp [conjoin, conjunction, andWord, text]

/-- Joined as they are written, two formulas read as one. -/
theorem conjoin_text_of_not_negated (ho : o.WellFormed) (hi : i.WellFormed)
    (hplain : i.negated = false) :
    conjoin o.text i.text = (o.joined i).text := by
  obtain ⟨ds, d, e, es, hds, hes, -, hd, he⟩ := ho.exists_joined hi
  have hbody : body (splice o.disjuncts i.disjuncts)
      = body o.disjuncts ++ andWord :: body i.disjuncts := by
    rw [hds, hes, body_splice ds hd he]
  have hwords : (o.joined i).words = o.words ++ andWord :: i.words := by
    unfold words Formula.joined
    dsimp only
    rw [hbody, hplain]
    cases o.negated <;> simp
  rw [conjoin_text ho hi, text, hwords]

/-- A `not` of the second formula makes it unreadable. -/
theorem conjoin_text_ne_of_negated (ho : o.WellFormed) (hi : i.WellFormed)
    (hnegated : i.negated = true) (hg : g.WellFormed) :
    conjoin o.text i.text ≠ g.text := by
  intro heq
  have hsplit : g.words = o.words ++ andWord :: i.words := by
    rw [← hg.splitTopLevel_text, ← heq, conjoin_text ho hi,
      splitTopLevel_words (by simp) fun _ => ho.of_mem_words_and hi]
  obtain ⟨first, rest, hfirst⟩ := List.exists_cons_of_ne_nil ho.words_ne_nil
  refine hg.notWord_not_mem_tail_words ?_
  rw [hsplit, hfirst]
  simp [words, hnegated]

end WellFormed

end Formula

-- ============================================ merging two conditions

/-- The parts of a merged condition: each formula of one list joined to each of
another. -/
theorem isListOf_merge (hkind : kind ≠ .container)
    (houter : ListsFormulas outer os) (hinner : ListsFormulas inner is) :
    IsListOf (merge ⟨kind, outer⟩ ⟨kind, inner⟩).condition
      (multiply (fun o i => conjoin o.text i.text) os is) := by
  have hparts :
      multiply (mergePart kind) (alternatives outer) (alternatives inner)
      = multiply (fun o i => conjoin o.text i.text) os is := by
    unfold alternatives
    rw [houter.1.split, hinner.1.split, multiply_map]
    exact multiply_congr fun o _ i _ => if_neg hkind
  have hmerge := @merge_eq ⟨kind, outer⟩ ⟨kind, inner⟩ rfl houter.ne_nil
    hinner.ne_nil
  rw [hmerge]
  show IsListOf (", ".toList.intercalate (multiply (mergePart kind) _ _)) _
  rw [hparts]
  apply Text.isListOf_intercalate
  · exact multiply_ne_nil _ houter.formulas_ne_nil hinner.formulas_ne_nil
  · intro part hpart
    obtain ⟨o, ho, i, hi, rfl⟩ := mem_multiply.1 hpart
    -- a joined text is made of words, so it is not cut itself
    have hwords : ∀ word ∈ o.words ++ andWord :: i.words,
        IsTest word ∨ IsWord word :=
      fun _ => (houter.2 o ho).of_mem_words_and (hinner.2 i hi)
    rw [(houter.2 o ho).conjoin_text (hinner.2 i hi)]
    exact ⟨trimmed_words hwords, unbroken_words hwords⟩

/-- Without a `not` on the inside, each formula of one list is joined to each
of another. -/
theorem ListsFormulas.merge (hkind : kind ≠ .container)
    (houter : ListsFormulas outer os) (hinner : ListsFormulas inner is)
    (hplain : ∀ i ∈ is, i.negated = false) :
    ListsFormulas (Query.merge ⟨kind, outer⟩ ⟨kind, inner⟩).condition
      (multiply Formula.joined os is) := by
  constructor
  · have htexts : (multiply Formula.joined os is).map Formula.text
        = multiply (fun o i => conjoin o.text i.text) os is := by
      rw [map_multiply]
      refine multiply_congr fun o ho i hi => ?_
      exact ((houter.2 o ho).conjoin_text_of_not_negated (hinner.2 i hi)
        (hplain i hi)).symm
    rw [htexts]
    exact isListOf_merge hkind houter hinner
  · intro f hf
    obtain ⟨o, ho, i, hi, rfl⟩ := mem_multiply.1 hf
    exact (houter.2 o ho).joined (hinner.2 i hi)

/-- With one, the merged condition lists no formulas. -/
theorem not_listsFormulas_merge (hkind : kind ≠ .container)
    (houter : ListsFormulas outer os) (hinner : ListsFormulas inner is)
    (hi : i ∈ is) (hnegated : i.negated = true) :
    ¬ ListsFormulas (merge ⟨kind, outer⟩ ⟨kind, inner⟩).condition fs := by
  intro hmerged
  obtain ⟨o, others, hos⟩ := List.exists_cons_of_ne_nil houter.formulas_ne_nil
  have ho : o ∈ os := hos ▸ List.mem_cons_self ..
  have hparts : fs.map Formula.text
      = multiply (fun o i => conjoin o.text i.text) os is := by
    rw [← hmerged.1.split, (isListOf_merge hkind houter hinner).split]
  have hmem : conjoin o.text i.text ∈ fs.map Formula.text := by
    rw [hparts]
    exact mem_multiply.2 ⟨o, ho, i, hi, rfl⟩
  obtain ⟨f, hf, htext⟩ := List.mem_map.1 hmem
  exact (houter.2 o ho).conjoin_text_ne_of_negated (hinner.2 i hi) hnegated
    (hmerged.2 f hf) htext.symm

-- ============================================================= meaning

/-- One of the disjuncts of some formulas asks for no more than these tests. -/
def Covers (fs : List Formula) (tests : List Text) : Prop :=
  ∃ f ∈ fs, ∃ d ∈ f.disjuncts, d ⊆ tests

/-- A formula without `not` holds if one of its disjuncts does. -/
theorem Formula.holds_of_not_negated (h : f.negated = false) :
    f.Holds v ↔ ∃ d ∈ f.disjuncts, ∀ test ∈ d, v test := by
  obtain ⟨negated, ds⟩ := f
  obtain rfl : negated = false := h
  rfl

/-- Where just some tests hold, formulas without a `not` hold exactly if they
cover them. -/
theorem exists_holds_mem_iff_covers (hplain : ∀ f ∈ fs, f.negated = false)
    (tests : List Text) :
    (∃ f ∈ fs, f.Holds (· ∈ tests)) ↔ Covers fs tests := by
  constructor
  · rintro ⟨f, hf, hholds⟩
    exact ⟨f, hf, (Formula.holds_of_not_negated (hplain f hf)).1 hholds⟩
  · rintro ⟨f, hf, hcovers⟩
    exact ⟨f, hf, (Formula.holds_of_not_negated (hplain f hf)).2 hcovers⟩

/-- Formulas that cover tests which hold do so too. -/
theorem Covers.exists_holds {tests : List Text} (h : Covers fs tests)
    (hplain : ∀ f ∈ fs, f.negated = false) (hv : ∀ test ∈ tests, v test) :
    ∃ f ∈ fs, f.Holds v := by
  obtain ⟨f, hf, d, hd, hsub⟩ := h
  exact ⟨f, hf, (Formula.holds_of_not_negated (hplain f hf)).2
    ⟨d, hd, fun test htest => hv test (hsub htest)⟩⟩

namespace Formula.WellFormed

/-- Where no test holds, only a `not` makes a formula hold. -/
theorem holds_false_iff (h : f.WellFormed) :
    f.Holds (fun _ => False) ↔ f.negated = true := by
  have hnone : ¬ ∃ d ∈ f.disjuncts, ∀ test ∈ d, False := by
    rintro ⟨d, hd, hfalse⟩
    obtain ⟨test, htest⟩ := List.exists_mem_of_ne_nil d (h.tested d hd).1
    exact hfalse test htest
  obtain ⟨negated, ds⟩ := f
  cases negated with
  | true => exact iff_of_true hnone rfl
  | false => exact iff_of_false hnone Bool.false_ne_true

/-- Without a `not`, what holds of two formulas holds of both joined. -/
theorem holds_joined (ho : o.WellFormed) (hi : i.WellFormed)
    (hplain : o.negated = false) (hplain' : i.negated = false)
    (hov : o.Holds v) (hiv : i.Holds v) : (o.joined i).Holds v := by
  obtain ⟨ds, d, e, es, hds, hes, hjoined, -, -⟩ := ho.exists_joined hi
  rw [holds_of_not_negated hplain, hds] at hov
  rw [holds_of_not_negated hplain', hes] at hiv
  rw [holds_of_not_negated (show (o.joined i).negated = false from hplain),
    hjoined]
  obtain ⟨c, hc, hcv⟩ := hov
  obtain ⟨c', hc', hcv'⟩ := hiv
  rcases List.mem_append.1 hc with hc | hc
  · exact ⟨c, List.mem_append_left _ hc, hcv⟩
  · obtain rfl := List.mem_singleton.1 hc
    rcases List.mem_cons.1 hc' with rfl | hc'
    · exact ⟨c ++ c', by simp, List.forall_mem_append.2 ⟨hcv, hcv'⟩⟩
    · exact ⟨c', by simp [hc'], hcv'⟩

/-- Without a `not`, two formulas joined hold by a disjunct that stays alone or
by two that are bound together. -/
theorem of_holds_joined (ho : o.WellFormed) (hi : i.WellFormed)
    (hplain : o.negated = false) (hplain' : i.negated = false)
    (h : (o.joined i).Holds v) :
    (∃ d ∈ o.disjuncts.dropLast, ∀ test ∈ d, v test)
      ∨ (∃ d ∈ i.disjuncts.tail, ∀ test ∈ d, v test)
      ∨ o.Holds v ∧ i.Holds v := by
  obtain ⟨ds, d, e, es, hds, hes, hjoined, -, -⟩ := ho.exists_joined hi
  rw [holds_of_not_negated (show (o.joined i).negated = false from hplain),
    hjoined] at h
  rw [holds_of_not_negated hplain, holds_of_not_negated hplain', hds, hes,
    List.dropLast_concat, List.tail_cons]
  obtain ⟨c, hc, hcv⟩ := h
  rcases List.mem_append.1 hc with hc | hc
  · exact .inl ⟨c, hc, hcv⟩
  · rcases List.mem_cons.1 hc with rfl | hc
    · obtain ⟨hdv, hev⟩ := List.forall_mem_append.1 hcv
      exact .inr (.inr ⟨⟨d, by simp, hdv⟩, e, by simp, hev⟩)
    · exact .inr (.inl ⟨c, hc, hcv⟩)

/-- A disjunct that stays alone is one of two formulas joined. -/
theorem mem_disjuncts_joined (ho : o.WellFormed) (hi : i.WellFormed)
    (h : d ∈ o.disjuncts.dropLast ∨ d ∈ i.disjuncts.tail) :
    d ∈ (o.joined i).disjuncts := by
  obtain ⟨ds, last, first, es, hds, hes, hjoined, -, -⟩ := ho.exists_joined hi
  rw [hds, hes, List.dropLast_concat, List.tail_cons] at h
  rw [hjoined]
  rcases h with h | h
  · exact List.mem_append_left _ h
  · exact List.mem_append_right _ (List.mem_cons_of_mem _ h)

end Formula.WellFormed

-- ======================================================= conjunctions

/-- The merged condition asks for both, for every truth of the tests. -/
def MergesToBoth (kind : QueryKind) (outer inner : Text) : Prop :=
  (∃ fs, ListsFormulas (merge ⟨kind, outer⟩ ⟨kind, inner⟩).condition fs)
    ∧ ∀ v, Says v (merge ⟨kind, outer⟩ ⟨kind, inner⟩).condition
      ↔ Says v outer ∧ Says v inner

/-- Merging must not meet a `not`. On the inside it cannot be read, and on the
outside it negates the inner condition, which is seen where no test holds. -/
theorem MergesToBoth.not_negated (hkind : kind ≠ .container)
    (houter : ListsFormulas outer os) (hinner : ListsFormulas inner is)
    (h : MergesToBoth kind outer inner) :
    (∀ o ∈ os, o.negated = false) ∧ ∀ i ∈ is, i.negated = false := by
  obtain ⟨⟨fs, hmerged⟩, hboth⟩ := h
  have hplain : ∀ i ∈ is, i.negated = false := by
    intro i hi
    by_contra hnegated
    rw [Bool.not_eq_false] at hnegated
    exact not_listsFormulas_merge hkind houter hinner hi hnegated hmerged
  refine ⟨fun o ho => ?_, hplain⟩
  by_contra hnegated
  rw [Bool.not_eq_false] at hnegated
  obtain ⟨i, hi⟩ := List.exists_mem_of_ne_nil is hinner.formulas_ne_nil
  have hjoined := (houter.2 o ho).joined (hinner.2 i hi)
  have hsays := (houter.merge hkind hinner hplain).says_iff.2
    ⟨o.joined i, mem_multiply.2 ⟨o, ho, i, hi, rfl⟩,
      hjoined.holds_false_iff.2 hnegated⟩
  obtain ⟨f, hf, hholds⟩ := hinner.says_iff.1 ((hboth _).1 hsays).2
  have hf' := (hinner.2 f hf).holds_false_iff.1 hholds
  rw [hplain f hf] at hf'
  cases hf'

/-- Without a `not`, a disjunct that stays alone has to have the other side in
it, which is seen where just its tests hold. -/
theorem MergesToBoth.covers (hkind : kind ≠ .container)
    (houter : ListsFormulas outer os) (hinner : ListsFormulas inner is)
    (hos : ∀ o ∈ os, o.negated = false) (his : ∀ i ∈ is, i.negated = false)
    (h : MergesToBoth kind outer inner) (ho : o ∈ os) (hi : i ∈ is)
    (hd : d ∈ o.disjuncts.dropLast ∨ d ∈ i.disjuncts.tail) :
    Covers os d ∧ Covers is d := by
  have hplain : (o.joined i).negated = false := hos o ho
  have hholds : (o.joined i).Holds (· ∈ d) :=
    (Formula.holds_of_not_negated hplain).2
      ⟨d, (houter.2 o ho).mem_disjuncts_joined (hinner.2 i hi) hd, fun _ => id⟩
  have hsays := (houter.merge hkind hinner his).says_iff.2
    ⟨o.joined i, mem_multiply.2 ⟨o, ho, i, hi, rfl⟩, hholds⟩
  obtain ⟨houterSays, hinnerSays⟩ := (h.2 _).1 hsays
  exact ⟨(exists_holds_mem_iff_covers hos d).1 (houter.says_iff.1 houterSays),
    (exists_holds_mem_iff_covers his d).1 (hinner.says_iff.1 hinnerSays)⟩

/-- Two conditions of one kind, with or without operators, are merged to their
conjunction exactly if there is no `not`, and each disjunct that ` and ` leaves
alone has in it a disjunct of the other side. -/
theorem merge_is_conjunction_iff (hkind : kind ≠ .container)
    (houter : ListsFormulas outer os) (hinner : ListsFormulas inner is) :
    MergesToBoth kind outer inner
      ↔ ((∀ o ∈ os, o.negated = false) ∧ ∀ i ∈ is, i.negated = false)
        ∧ (∀ o ∈ os, ∀ d ∈ o.disjuncts.dropLast, Covers is d)
        ∧ ∀ i ∈ is, ∀ d ∈ i.disjuncts.tail, Covers os d := by
  constructor
  · intro h
    obtain ⟨hos, his⟩ := h.not_negated hkind houter hinner
    -- one formula of each list is enough to speak of its disjuncts
    obtain ⟨o, ho⟩ := List.exists_mem_of_ne_nil os houter.formulas_ne_nil
    obtain ⟨i, hi⟩ := List.exists_mem_of_ne_nil is hinner.formulas_ne_nil
    exact ⟨⟨hos, his⟩,
      fun o ho d hd =>
        (h.covers hkind houter hinner hos his ho hi (.inl hd)).2,
      fun i hi d hd =>
        (h.covers hkind houter hinner hos his ho hi (.inr hd)).1⟩
  · rintro ⟨⟨hos, his⟩, houterCovers, hinnerCovers⟩
    have hmerged := houter.merge hkind hinner his
    refine ⟨⟨_, hmerged⟩, fun v => ?_⟩
    rw [hmerged.says_iff, houter.says_iff, hinner.says_iff]
    constructor
    · rintro ⟨f, hf, hholds⟩
      obtain ⟨o, ho, i, hi, rfl⟩ := mem_multiply.1 hf
      have hojoined := (houter.2 o ho).of_holds_joined (hinner.2 i hi)
        (hos o ho) (his i hi) hholds
      -- a disjunct left alone brings its own side, and covers the other one
      rcases hojoined with ⟨d, hd, hv⟩ | ⟨d, hd, hv⟩ | ⟨hov, hiv⟩
      · refine ⟨⟨o, ho, (Formula.holds_of_not_negated (hos o ho)).2
          ⟨d, (List.dropLast_sublist _).subset hd, hv⟩⟩, ?_⟩
        exact (houterCovers o ho d hd).exists_holds his hv
      · refine ⟨(hinnerCovers i hi d hd).exists_holds hos hv, i, hi, ?_⟩
        exact (Formula.holds_of_not_negated (his i hi)).2
          ⟨d, List.mem_of_mem_tail hd, hv⟩
      · exact ⟨⟨o, ho, hov⟩, i, hi, hiv⟩
    · rintro ⟨⟨o, ho, hov⟩, i, hi, hiv⟩
      exact ⟨o.joined i, mem_multiply.2 ⟨o, ho, i, hi, rfl⟩,
        (houter.2 o ho).holds_joined (hinner.2 i hi) (hos o ho) (his i hi)
          hov hiv⟩

/-- A formula on its own is a list. -/
theorem listsFormulas_singleton (h : f.WellFormed) :
    ListsFormulas f.text [f] := by
  have hwords : ∀ word ∈ f.words, IsTest word ∨ IsWord word :=
    fun _ => h.of_mem_words
  have hlist := Text.isListOf_intercalate (List.cons_ne_nil f.text [])
    (List.forall_mem_singleton.2 ⟨trimmed_words hwords, unbroken_words hwords⟩)
  rw [List.intercalate_singleton] at hlist
  exact ⟨hlist, List.forall_mem_singleton.2 h⟩

/-- The disjunct that stays alone asks for the inner test already. -/
theorem merge_is_conjunction_iff_grid :
    let o : Formula :=
      ⟨false, [["(a)".toList, "(b)".toList], ["(c)".toList]]⟩
    let i : Formula := ⟨false, [["(b)".toList]]⟩
    ListsFormulas "(a) and (b) or (c)".toList [o]
    ∧ ListsFormulas "(b)".toList [i]
    ∧ merge ⟨.supports, "(a) and (b) or (c)".toList⟩ ⟨.supports, "(b)".toList⟩
      = ⟨.supports, "(a) and (b) or (c) and (b)".toList⟩
    ∧ MergesToBoth .supports "(a) and (b) or (c)".toList "(b)".toList := by
  intro o i
  have houter : ListsFormulas "(a) and (b) or (c)".toList [o] :=
    listsFormulas_singleton (f := o) (by decide +kernel)
  have hinner : ListsFormulas "(b)".toList [i] :=
    listsFormulas_singleton (f := i) (by decide +kernel)
  have hcovers : Covers [i] ["(a)".toList, "(b)".toList] :=
    ⟨i, List.mem_singleton_self i, ["(b)".toList], List.mem_singleton_self _,
      by decide⟩
  have hsupports : QueryKind.supports ≠ .container := by decide
  have hboth := (merge_is_conjunction_iff hsupports houter hinner).2
    ⟨⟨by simp [o], by simp [i]⟩, by simpa [o] using hcovers, by simp [i]⟩
  exact ⟨houter, hinner, by decide +kernel, hboth⟩

/-- A test on its own. -/
def Formula.single (test : String) : Formula := ⟨false, [[test.toList]]⟩

/-- Either of two tests. -/
def Formula.either (test test' : String) : Formula :=
  ⟨false, [[test.toList], [test'.toList]]⟩

/-- The negation of a test. -/
def Formula.negation (test : String) : Formula := ⟨true, [[test.toList]]⟩

/-- Joined without brackets, an `or` on either side lets the other side go, a
`not` on the outside negates the inner test, and one on the inside cannot be
read. -/
theorem operators_are_not_regrouped :
    (merge ⟨.media, "(a) or (b)".toList⟩ ⟨.media, "(c)".toList⟩).condition
      = "(a) or (b) and (c)".toList
    ∧ ¬ MergesToBoth .media "(a) or (b)".toList "(c)".toList
    ∧ (merge ⟨.media, "(a)".toList⟩ ⟨.media, "(b) or (c)".toList⟩).condition
      = "(a) and (b) or (c)".toList
    ∧ ¬ MergesToBoth .media "(a)".toList "(b) or (c)".toList
    ∧ (merge ⟨.media, "not (a)".toList⟩ ⟨.media, "(b)".toList⟩).condition
      = "not (a) and (b)".toList
    ∧ ¬ MergesToBoth .media "not (a)".toList "(b)".toList
    ∧ (merge ⟨.media, "(a)".toList⟩ ⟨.media, "not (b)".toList⟩).condition
      = "(a) and not (b)".toList
    ∧ ¬ MergesToBoth .media "(a)".toList "not (b)".toList := by
  have hmedia : QueryKind.media ≠ .container := by decide
  have ha : ListsFormulas "(a)".toList [.single "(a)"] :=
    listsFormulas_singleton (f := .single "(a)") (by decide +kernel)
  have hb : ListsFormulas "(b)".toList [.single "(b)"] :=
    listsFormulas_singleton (f := .single "(b)") (by decide +kernel)
  have hc : ListsFormulas "(c)".toList [.single "(c)"] :=
    listsFormulas_singleton (f := .single "(c)") (by decide +kernel)
  refine ⟨by decide +kernel, ?_, by decide +kernel, ?_, by decide +kernel, ?_,
    by decide +kernel, ?_⟩
  · -- `(a)` stays alone and does not ask for `(c)`
    intro h
    have hor : ListsFormulas "(a) or (b)".toList [.either "(a)" "(b)"] :=
      listsFormulas_singleton (f := .either "(a)" "(b)") (by decide +kernel)
    obtain ⟨-, i, hi, d, hd, hsub⟩ := h.covers hmedia hor hc
      (by simp [Formula.either]) (by simp [Formula.single])
      (List.mem_singleton_self _) (List.mem_singleton_self _)
      (d := ["(a)".toList]) (by simp [Formula.either])
    obtain rfl := List.mem_singleton.1 hi
    obtain rfl := List.mem_singleton.1 hd
    exact absurd hsub (by decide)
  · -- `(c)` stays alone and does not ask for `(a)`
    intro h
    have hor : ListsFormulas "(b) or (c)".toList [.either "(b)" "(c)"] :=
      listsFormulas_singleton (f := .either "(b)" "(c)") (by decide +kernel)
    obtain ⟨⟨o, ho, d, hd, hsub⟩, -⟩ := h.covers hmedia ha hor
      (by simp [Formula.single]) (by simp [Formula.either])
      (List.mem_singleton_self _) (List.mem_singleton_self _)
      (d := ["(c)".toList]) (by simp [Formula.either])
    obtain rfl := List.mem_singleton.1 ho
    obtain rfl := List.mem_singleton.1 hd
    exact absurd hsub (by decide)
  · intro h
    have hnot : ListsFormulas "not (a)".toList [.negation "(a)"] :=
      listsFormulas_singleton (f := .negation "(a)") (by decide +kernel)
    exact absurd ((h.not_negated hmedia hnot hb).1 _
      (List.mem_singleton_self _)) (by decide)
  · intro h
    have hnot : ListsFormulas "not (b)".toList [.negation "(b)"] :=
      listsFormulas_singleton (f := .negation "(b)") (by decide +kernel)
    exact absurd ((h.not_negated hmedia ha hnot).2 _
      (List.mem_singleton_self _)) (by decide)

end StyleTree.Query
