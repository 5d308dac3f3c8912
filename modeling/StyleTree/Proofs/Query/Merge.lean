/-
What merging two queries comes to, case by case. There are four: queries of two
kinds, a bare one on either side, and two conditions of one kind, whose
alternatives are multiplied out (`merge_eq`). In all of them the kind is that
of the inner query (`kind_merge`), and something is asked for wherever the
inner query asks for something (`condition_merge_ne_nil`).
-/
import StyleTree.Query
import StyleTree.Proofs.Text.Trim

namespace StyleTree.Query

variable {outer inner : Query}

-- ======================================================= the four cases

/-- A query of another kind takes the place of the outer one. -/
theorem merge_of_kind_ne (h : outer.kind ≠ inner.kind) :
    outer.merge inner = inner := by
  unfold merge
  rw [if_pos (by simp [h])]

/-- A keyword alone asks for nothing. -/
theorem merge_of_bare_outer (h : outer.condition = []) :
    outer.merge inner = inner := by
  unfold merge
  rw [if_pos (by simp [h])]

/-- A keyword alone inside of the same one adds nothing. -/
theorem merge_of_bare_inner (hkind : outer.kind = inner.kind)
    (h : inner.condition = []) : outer.merge inner = outer := by
  obtain ⟨kind, condition⟩ := outer
  obtain ⟨kind', condition'⟩ := inner
  obtain rfl : kind = kind' := hkind
  obtain rfl : condition' = [] := h
  unfold merge
  cases condition <;> simp

/-- Of two conditions every alternative of one is merged with every alternative
of the other. -/
theorem merge_eq (hkind : outer.kind = inner.kind)
    (houter : outer.condition ≠ []) (hinner : inner.condition ≠ []) :
    outer.merge inner = ⟨outer.kind, ", ".toList.intercalate
      ((alternatives outer.condition).flatMap fun o =>
        (alternatives inner.condition).map (mergePart outer.kind o))⟩ := by
  unfold merge
  rw [if_neg (by simp [hkind, houter]), if_neg (by simp [hinner])]

-- ================================================= what they have in common

/-- The merged query is of the inner kind. -/
theorem kind_merge (outer inner : Query) :
    (outer.merge inner).kind = inner.kind := by
  by_cases hkind : outer.kind = inner.kind
  · by_cases houter : outer.condition = []
    · rw [merge_of_bare_outer houter]
    · by_cases hinner : inner.condition = []
      · rw [merge_of_bare_inner hkind hinner, hkind]
      · rw [merge_eq hkind houter hinner, hkind]
  · rw [merge_of_kind_ne hkind]

/-- A container name is a word, and stands in the part that it was found in. -/
theorem ne_nil_of_splitContainerName {part name rest : Text}
    (h : splitContainerName part = (some name, rest)) :
    name ≠ [] ∧ part ≠ [] := by
  unfold splitContainerName at h
  dsimp only at h
  split at h
  · next hname =>
    injection h with hsome hrest
    injection hsome with hfirst
    have hne : name ≠ [] := by
      rintro rfl
      simp [hfirst] at hname
    refine ⟨hne, ?_⟩
    rintro rfl
    exact hne hfirst.symm
  · cases h

/-- A container name in front of what is left of both sides without it. -/
def led (name outerRest innerRest : Text) : Text :=
  match [outerRest, innerRest].filter (!·.isEmpty) with
  | [] => name
  | rests => name ++ ' ' :: conjunction.intercalate rests

theorem led_ne_nil {name : Text} (h : name ≠ []) (outerRest innerRest : Text) :
    led name outerRest innerRest ≠ [] := by
  unfold led
  split
  · exact h
  · exact List.append_ne_nil_of_left_ne_nil h _

/-- The name that both parts have, or the one of them that has one, leads the
merged part. Of two different names the inner part is kept. -/
theorem conjoinContainer_eq (o i : Text) :
    conjoinContainer o i
      = match splitContainerName o, splitContainerName i with
      | (some name, outerRest), (some name', innerRest) =>
        if name = name' then led name outerRest innerRest else i
      | (some name, outerRest), (none, innerRest) =>
        led name outerRest innerRest
      | (none, outerRest), (some name, innerRest) =>
        led name outerRest innerRest
      | (none, _), (none, _) => conjoin o i := by
  unfold conjoinContainer
  rcases splitContainerName o with ⟨_ | name, outerRest⟩ <;>
    rcases splitContainerName i with ⟨_ | name', innerRest⟩ <;> rfl

theorem mergePart_ne_nil (kind : QueryKind) (o i : Text) :
    mergePart kind o i ≠ [] := by
  have hconjoin : conjoin o i ≠ [] := by
    unfold conjoin
    simp [show conjunction ≠ [] by decide]
  unfold mergePart
  split
  · rw [conjoinContainer_eq]
    split
    · next name outerRest name' innerRest ho hi =>
      split
      · exact led_ne_nil (ne_nil_of_splitContainerName ho).1 _ _
      · exact (ne_nil_of_splitContainerName hi).2
    · next ho _ => exact led_ne_nil (ne_nil_of_splitContainerName ho).1 _ _
    · next hi => exact led_ne_nil (ne_nil_of_splitContainerName hi).1 _ _
    · exact hconjoin
  · exact hconjoin

theorem alternatives_ne_nil (condition : Text) :
    alternatives condition ≠ [] := by
  unfold alternatives
  simp [Text.splitTopLevel_ne_nil]

/-- A query that asks for something still does so where it is merged into
another. -/
theorem condition_merge_ne_nil (outer : Query) (h : inner.condition ≠ []) :
    (outer.merge inner).condition ≠ [] := by
  by_cases hkind : outer.kind = inner.kind
  · by_cases houter : outer.condition = []
    · rwa [merge_of_bare_outer houter]
    · obtain ⟨o, os, ho⟩ :=
        List.exists_cons_of_ne_nil (alternatives_ne_nil outer.condition)
      obtain ⟨i, is, hi⟩ :=
        List.exists_cons_of_ne_nil (alternatives_ne_nil inner.condition)
      rw [merge_eq hkind houter h, ho, hi, List.flatMap_cons, List.map_cons,
        List.cons_append]
      exact Text.intercalate_cons_ne_nil (mergePart_ne_nil _ o i) _ _
  · rwa [merge_of_kind_ne hkind]

-- ====================================================== below a query

theorem kind_under (query : Query) (guard : Option Query) :
    (query.under guard).kind = query.kind := by
  cases guard with
  | none => rfl
  | some outer => exact kind_merge outer query

/-- A guard around a condition leaves one. -/
theorem condition_under_ne_nil {query : Query} (h : query.condition ≠ [])
    (guard : Option Query) : (query.under guard).condition ≠ [] := by
  cases guard with
  | none => exact h
  | some outer => exact condition_merge_ne_nil outer h

end StyleTree.Query
