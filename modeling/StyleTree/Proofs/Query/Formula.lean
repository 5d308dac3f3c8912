/-
Conditions with the operators `not` and `or`. An alternative of such a
condition is a formula: `or` separates its disjuncts, each of which joins tests
by `and`, and a leading `not` negates all of it (`Formula`).

Written out, a formula is words with spaces between them, so cutting its text
at spaces outside brackets gives the words back. The word `not` can only be the
first and `or` is no word of a disjunct, so the words say which formula it is
(`Formula.WellFormed.eq_of_text_eq`), and a condition has one reading at most
(`ListsFormulas.eq`).
-/
import StyleTree.Proofs.Query.Alternatives

namespace StyleTree.Query

open Text (IsListOf)

variable {condition : Text} {v : Text → Prop}

-- ============================================================ formulas

/-- The word that negates what is behind it. -/
def notWord : Text := "not".toList

/-- The word between two disjuncts. -/
def orWord : Text := "or".toList

/-- An alternative: some disjuncts, each of which asks for some tests, and
whether they are negated. -/
structure Formula where
  negated : Bool
  disjuncts : List (List Text)
  deriving DecidableEq, Repr

variable {d e : List Text} {ds : List (List Text)} {f g : Formula}
  {fs gs : List Formula}

namespace Formula

/-- Disjuncts with the words in and between them. -/
def body (ds : List (List Text)) : List Text :=
  [orWord].intercalate (ds.map chain)

/-- The words of a formula. -/
def words (f : Formula) : List Text :=
  if f.negated then notWord :: body f.disjuncts else body f.disjuncts

/-- The formula as it is written. -/
def text (f : Formula) : Text := [' '].intercalate f.words

/-- There is something to ask for, in tests only. -/
structure WellFormed (f : Formula) : Prop where
  asks : f.disjuncts ≠ []
  tested : ∀ d ∈ f.disjuncts, d ≠ [] ∧ ∀ test ∈ d, IsTest test

/-- What a formula says, for a given truth of the tests. -/
def Holds (v : Text → Prop) : Formula → Prop
  | ⟨false, ds⟩ => ∃ d ∈ ds, ∀ test ∈ d, v test
  | ⟨true, ds⟩ => ¬ ∃ d ∈ ds, ∀ test ∈ d, v test

instance (f : Formula) : Decidable f.WellFormed :=
  decidable_of_iff (f.disjuncts ≠ []
      ∧ ∀ d ∈ f.disjuncts, d ≠ [] ∧ ∀ test ∈ d, IsTest test)
    ⟨fun ⟨hasks, htested⟩ => ⟨hasks, htested⟩, fun h => ⟨h.asks, h.tested⟩⟩

end Formula

/-- The text of a condition lists formulas. -/
def ListsFormulas (condition : Text) (fs : List Formula) : Prop :=
  IsListOf condition (fs.map Formula.text) ∧ ∀ f ∈ fs, f.WellFormed

/-- What a condition says, for a given truth of the tests: one of the formulas
that it lists holds. -/
def Says (v : Text → Prop) (condition : Text) : Prop :=
  ∃ fs, ListsFormulas condition fs ∧ ∃ f ∈ fs, f.Holds v

-- =============================================================== words

/-- Two chains are one with `and` between them. -/
theorem chain_append (hd : d ≠ []) (he : e ≠ []) :
    chain (d ++ e) = chain d ++ andWord :: chain e := by
  induction d with
  | nil => exact absurd rfl hd
  | cons test rest ih =>
    cases rest with
    | nil =>
      obtain ⟨test', rest', rfl⟩ := List.exists_cons_of_ne_nil he
      exact chain_cons_cons test test' rest'
    | cons next rest =>
      rw [chain_cons_cons, List.cons_append, List.cons_append, chain_cons_cons,
        ← List.cons_append, ih (List.cons_ne_nil next rest)]
      rfl

namespace Formula

/-- The first disjunct stands in front, and each other one behind an `or`. -/
theorem body_cons (d : List Text) (ds : List (List Text)) :
    body (d :: ds) = chain d ++ ds.flatMap fun e => orWord :: chain e := by
  unfold body
  induction ds generalizing d with
  | nil => simp
  | cons e ds ih =>
    rw [List.map_cons, List.map_cons, List.intercalate_cons_cons,
      ← List.map_cons, ih, List.flatMap_cons, List.append_assoc]
    rfl

/-- The word of a body is a test of its disjuncts, or one of the two words that
join. -/
theorem mem_body {word : Text} (h : word ∈ body ds) :
    (∃ d ∈ ds, word ∈ d) ∨ word = andWord ∨ word = orWord := by
  cases ds with
  | nil => cases h
  | cons first others =>
    rw [body_cons] at h
    have hchain {d : List Text} (hd : d ∈ first :: others)
        (hword : word ∈ chain d) :
        (∃ d ∈ first :: others, word ∈ d) ∨ word = andWord
          ∨ word = orWord := by
      rcases mem_chain hword with htest | heq
      · exact .inl ⟨d, hd, htest⟩
      · exact .inr (.inl heq)
    rcases List.mem_append.1 h with h | h
    · exact hchain (List.mem_cons_self ..) h
    · obtain ⟨d, hd, h⟩ := List.mem_flatMap.1 h
      rcases List.mem_cons.1 h with heq | h
      · exact .inr (.inr heq)
      · exact hchain (List.mem_cons_of_mem _ hd) h

namespace WellFormed

/-- The words of a body are tests and connectives. -/
theorem of_mem_body (h : f.WellFormed) {word : Text}
    (hword : word ∈ body f.disjuncts) :
    IsTest word ∨ word = andWord ∨ word = orWord := by
  rcases mem_body hword with ⟨d, hd, htest⟩ | hjoin
  · exact .inl ((h.tested d hd).2 word htest)
  · exact .inr hjoin

/-- Only in front of a formula is there a `not`. -/
theorem notWord_not_mem_body (h : f.WellFormed) :
    notWord ∉ body f.disjuncts := by
  intro hmem
  rcases h.of_mem_body hmem with htest | heq | heq
  · exact absurd htest.head? (by decide)
  · exact absurd heq (by decide)
  · exact absurd heq (by decide)

/-- A formula has no `not` but in front. -/
theorem notWord_not_mem_tail_words (h : f.WellFormed) :
    notWord ∉ f.words.tail := by
  intro hmem
  refine h.notWord_not_mem_body ?_
  unfold words at hmem
  split at hmem
  · exact hmem
  · exact List.mem_of_mem_tail hmem

theorem body_ne_nil (h : f.WellFormed) : body f.disjuncts ≠ [] := by
  obtain ⟨d, ds, hds⟩ := List.exists_cons_of_ne_nil h.asks
  obtain ⟨hd, -⟩ := h.tested d (hds ▸ List.mem_cons_self ..)
  obtain ⟨test, rest, rfl⟩ := List.exists_cons_of_ne_nil hd
  rw [hds, body_cons]
  exact List.append_ne_nil_of_left_ne_nil (chain_ne_nil test rest) _

theorem words_ne_nil (h : f.WellFormed) : f.words ≠ [] := by
  unfold words
  split
  · exact List.cons_ne_nil _ _
  · exact h.body_ne_nil

theorem of_mem_words (h : f.WellFormed) {word : Text}
    (hword : word ∈ f.words) :
    IsTest word ∨ IsWord word := by
  have hbody (hmem : word ∈ body f.disjuncts) : IsTest word ∨ IsWord word := by
    rcases h.of_mem_body hmem with htest | rfl | rfl
    · exact .inl htest
    · exact .inr (by decide)
    · exact .inr (by decide)
  unfold words at hword
  split at hword
  · rcases List.mem_cons.1 hword with rfl | hmem
    · exact .inr (by decide)
    · exact hbody hmem
  · exact hbody hword

theorem text_ne_nil (h : f.WellFormed) : f.text ≠ [] := by
  obtain ⟨word, rest, hwords⟩ := List.exists_cons_of_ne_nil h.words_ne_nil
  have hword : word ∈ f.words := hwords ▸ List.mem_cons_self ..
  rw [Formula.text, hwords]
  exact Text.intercalate_cons_ne_nil
    (trimmed_of_word (h.of_mem_words hword)).2 _ _

/-- The words of a formula are what stands between its spaces. -/
theorem splitTopLevel_text (h : f.WellFormed) :
    f.text.splitTopLevel ' ' = f.words :=
  splitTopLevel_words h.words_ne_nil fun _ => h.of_mem_words

/-- The disjuncts are what stands between the words `or`. -/
theorem disjuncts_eq (h : f.WellFormed) :
    ((body f.disjuncts).splitOn orWord).map
      (fun words => words.filter fun word => word.head? = some '(')
      = f.disjuncts := by
  have hfree : ∀ words ∈ f.disjuncts.map chain, orWord ∉ words := by
    intro words hwords hmem
    obtain ⟨d, hd, rfl⟩ := List.mem_map.1 hwords
    rcases mem_chain hmem with htest | heq
    · exact absurd ((h.tested d hd).2 _ htest).head? (by decide)
    · exact absurd heq (by decide)
  rw [body, List.splitOn_intercalate orWord hfree (by simpa using h.asks),
    List.map_map]
  refine (List.map_congr_left fun d hd => ?_).trans (List.map_id _)
  exact filter_chain (h.tested d hd).2

/-- The text of a formula says which it is. -/
theorem eq_of_text_eq (hf : f.WellFormed) (hg : g.WellFormed)
    (htext : f.text = g.text) : f = g := by
  have h : f.words = g.words := by
    rw [← hf.splitTopLevel_text, htext, hg.splitTopLevel_text]
  have hbody : f.negated = g.negated
      ∧ body f.disjuncts = body g.disjuncts := by
    have hf' := hf.notWord_not_mem_body
    have hg' := hg.notWord_not_mem_body
    unfold words at h
    cases hnf : f.negated <;> cases hng : g.negated <;>
      simp only [hnf, hng, if_true, if_false, Bool.false_eq_true] at h
    · exact ⟨rfl, h⟩
    · exact absurd (h ▸ List.mem_cons_self ..) hf'
    · exact absurd (h ▸ List.mem_cons_self ..) hg'
    · exact ⟨rfl, List.tail_eq_of_cons_eq h⟩
  have hdisjuncts : f.disjuncts = g.disjuncts := by
    rw [← hf.disjuncts_eq, hbody.2, hg.disjuncts_eq]
  cases f
  cases g
  simp only at hbody hdisjuncts
  rw [hbody.1, hdisjuncts]

end WellFormed

end Formula

theorem ListsFormulas.formulas_ne_nil (h : ListsFormulas condition fs) :
    fs ≠ [] :=
  List.map_eq_nil_iff.not.1 h.1.ne_nil

theorem ListsFormulas.ne_nil (h : ListsFormulas condition fs) :
    condition ≠ [] := by
  refine h.1.text_ne_nil fun member hmember => ?_
  obtain ⟨f, hf, rfl⟩ := List.mem_map.1 hmember
  exact (h.2 f hf).text_ne_nil

/-- A condition lists no other formulas. -/
theorem ListsFormulas.eq (hf : ListsFormulas condition fs)
    (hg : ListsFormulas condition gs) : fs = gs := by
  obtain ⟨hlist, hf⟩ := hf
  obtain ⟨hlist', hg⟩ := hg
  have htexts : fs.map Formula.text = gs.map Formula.text := by
    rw [← hlist.split, ← hlist'.split]
  clear hlist hlist'
  induction fs generalizing gs with
  | nil => exact (List.map_eq_nil_iff.1 htexts.symm).symm
  | cons f fs ih =>
    cases gs with
    | nil => cases htexts
    | cons g gs =>
      obtain ⟨hfirst, hfs⟩ := List.forall_mem_cons.1 hf
      obtain ⟨hfirst', hgs⟩ := List.forall_mem_cons.1 hg
      injection htexts with htext hrest
      rw [hfirst.eq_of_text_eq hfirst' htext, ih hfs hgs hrest]

/-- A condition that lists formulas says that one of them holds. -/
theorem ListsFormulas.says_iff (h : ListsFormulas condition fs) :
    Says v condition ↔ ∃ f ∈ fs, f.Holds v := by
  constructor
  · rintro ⟨gs, hgs, hholds⟩
    rwa [h.eq hgs]
  · exact fun hholds => ⟨fs, h, hholds⟩

end StyleTree.Query
