/-
When the text of a query is read back as the query. Reading collapses the
spaces of a condition, so a query is read back from its text exactly if its
condition is neat (`ofKey?_text_eq_some_iff`). What is read is neat. What is
merged is joined out of parts, and their spaces are not collapsed again.

# Blank alternatives

The conditions of two neat queries have neat alternatives. Joined by ` and `,
two of them have a blank at their start if the outer one is empty, and at
their end if the inner one is. A name takes care of that: what it leads is
made of the rests that are not empty (`neat_mergePart_of_named`). In the list
of all joined alternatives no blank may be at a start, where it comes behind
another one, nor at the end. `JoinsNeatly` asks for no more than that, and of
neat queries it is exactly when their merge is neat (`neat_merge_iff`).

By induction on how a query is made, out of what keys and conditions and by
what merges, each query on the way is read back as long as each merge joins
neatly, and no longer (`read_back_throughout_iff`). The texts tell all queries
apart in any case (`text_inj`), so at-rules with one text that would be
neighbours share one block.
-/
import StyleTree.Proofs.Css.Runs
import StyleTree.Proofs.Query.Alternatives
import StyleTree.Proofs.Query.Merge
import StyleTree.Proofs.Style.Keys
import StyleTree.Proofs.Text.Parts
import StyleTree.Proofs.Text.Spaced

namespace StyleTree

open Text (Neat SingleSpaced)

-- ============================================= reading a printed query

namespace Query

variable {kind : QueryKind} {query outer inner : Query} {condition o i : Text}

/-- What stands behind the keyword of a printed query. -/
theorem split?_text (query : Query) : QueryKind.split? query.text
    = some (query.kind,
      if query.condition.isEmpty then [] else ' ' :: query.condition) := by
  unfold text
  split
  · have hsplit : QueryKind.split? (query.kind.keyword ++ [])
        = some (query.kind, []) :=
      QueryKind.split?_keyword_append query.kind rfl
    rwa [List.append_nil] at hsplit
  · exact QueryKind.split?_keyword_append query.kind rfl

/-- The text of a query is read with the spaces of its condition collapsed. -/
theorem ofKey?_text (query : Query) :
    ofKey? query.text = some (ofCondition query.kind query.condition) := by
  unfold ofKey?
  rw [split?_text]
  cases hcondition : query.condition with
  | nil => rfl
  | cons c rest =>
    show some (ofCondition query.kind (' ' :: c :: rest)) = _
    unfold ofCondition
    rw [Text.collapseSpaces_cons_of_isBlank rfl]

/-- A query is read back from its text exactly if its condition is neat. -/
theorem ofKey?_text_eq_some_iff :
    ofKey? query.text = some query ↔ Neat query.condition := by
  rw [ofKey?_text, Option.some_inj, ← Text.collapseSpaces_eq_self_iff]
  exact ⟨congrArg condition, fun h => by rw [ofCondition, h]⟩

/-- Queries with one text are one query. -/
theorem text_inj : outer.text = inner.text ↔ outer = inner := by
  refine ⟨fun h => ?_, congrArg text⟩
  have hsplit := congrArg QueryKind.split? h
  rw [split?_text, split?_text, Option.some_inj, Prod.mk.injEq] at hsplit
  obtain ⟨kind, condition⟩ := outer
  obtain ⟨kind', condition'⟩ := inner
  obtain ⟨rfl, hcondition⟩ := hsplit
  cases condition <;> cases condition' <;> simp_all

/-- What is read from a key is neat. -/
theorem neat_ofKey? {key : Text} (h : ofKey? key = some query) :
    Neat query.condition := by
  obtain ⟨⟨kind, rest⟩, -, rfl⟩ := Option.map_eq_some_iff.1 h
  exact Text.neat_collapseSpaces rest

-- =================================================== alternatives

/-- The alternatives of a single-spaced condition are neat. -/
theorem neat_of_mem_alternatives (h : SingleSpaced condition)
    (ho : o ∈ alternatives condition) : Neat o := by
  obtain ⟨part, hpart, rfl⟩ := List.mem_map.1 ho
  apply (h.of_infix _).neat_trim
  rw [← Text.intercalate_splitFrom ',' .top condition]
  exact Text.infix_intercalate hpart _

/-- The alternative is led by the name of a container. -/
def IsNamed (kind : QueryKind) (part : Text) : Prop :=
  kind = .container ∧ (splitContainerName part).1 ≠ none

instance (kind : QueryKind) (part : Text) : Decidable (IsNamed kind part) :=
  inferInstanceAs (Decidable (_ ∧ _))

theorem IsNamed.ne_nil (h : IsNamed kind o) : o ≠ [] := by
  obtain ⟨-, hname⟩ := h
  obtain ⟨name, hname⟩ := Option.ne_none_iff_exists'.1 hname
  exact (ne_nil_of_splitContainerName
    (Prod.ext hname rfl : splitContainerName o = (some name, _))).2

/-- Of a neat alternative, the name and the rest are neat. -/
theorem neat_splitContainerName {name rest : Text} (ho : Neat o)
    (h : splitContainerName o = (some name, rest)) :
    Neat name ∧ name ≠ [] ∧ Neat rest := by
  have hne := (ne_nil_of_splitContainerName h).1
  unfold splitContainerName at h
  dsimp only at h
  split at h
  · cases h
    refine ⟨Text.neat_of_word fun c hc => ?_, hne, ?_⟩
    · simpa using List.all_eq_true.1 List.all_takeWhile c hc
    · exact (ho.spaced.of_infix (List.drop_suffix _ _).isInfix).neat_trim
  · cases h

/-- What has no name is left as it is. -/
theorem eq_of_splitContainerName {rest : Text}
    (h : splitContainerName o = (none, rest)) : rest = o := by
  unfold splitContainerName at h
  dsimp only at h
  split at h <;> cases h
  rfl

/-- Tests that are not empty are joined neatly. -/
theorem neat_conjunction_intercalate {tests : List Text}
    (h : ∀ test ∈ tests, Neat test ∧ test ≠ []) :
    Neat (conjunction.intercalate tests) := by
  rw [← intercalate_chain]
  refine Text.neat_intercalate_space fun word hword => ?_
  rcases mem_chain hword with htest | rfl
  · exact h word htest
  · decide

/-- A name in front of two neat parts makes a neat one. -/
theorem neat_led {name outerRest innerRest : Text} (hname : Neat name)
    (hne : name ≠ []) (houter : Neat outerRest) (hinner : Neat innerRest) :
    Neat (led name outerRest innerRest) := by
  have hrests : ∀ rest ∈ [outerRest, innerRest].filter (!·.isEmpty),
      Neat rest ∧ rest ≠ [] := by
    intro rest hrest
    obtain ⟨hmem, hkept⟩ := List.mem_filter.1 hrest
    refine ⟨?_, by simpa using hkept⟩
    simp only [List.mem_cons, List.not_mem_nil, or_false] at hmem
    rcases hmem with rfl | rfl
    · exact houter
    · exact hinner
  unfold led
  split
  · exact hname
  · next hnil =>
    have hjoined : conjunction.intercalate
        ([outerRest, innerRest].filter (!·.isEmpty)) ≠ [] := by
      obtain ⟨rest, others, heq⟩ := List.exists_cons_of_ne_nil hnil
      rw [heq] at hrests ⊢
      exact Text.intercalate_cons_ne_nil
        (hrests rest (List.mem_cons_self ..)).2 _ _
    simpa using
      hname.append_space hne (neat_conjunction_intercalate hrests) hjoined

/-- What a name leads is neat. -/
theorem neat_mergePart_of_named (ho : Neat o) (hi : Neat i)
    (h : IsNamed kind o ∨ IsNamed kind i) : Neat (mergePart kind o i) := by
  have hkind : kind = .container := h.elim And.left And.left
  unfold mergePart
  rw [if_pos hkind, conjoinContainer_eq]
  split
  · next houter hinner =>
    obtain ⟨hname, hne, hrest⟩ := neat_splitContainerName ho houter
    obtain ⟨-, -, hrest'⟩ := neat_splitContainerName hi hinner
    split
    · exact neat_led hname hne hrest hrest'
    · exact hi
  · next houter hinner =>
    obtain ⟨hname, hne, hrest⟩ := neat_splitContainerName ho houter
    obtain rfl := eq_of_splitContainerName hinner
    exact neat_led hname hne hrest hi
  · next houter hinner =>
    obtain ⟨hname, hne, hrest⟩ := neat_splitContainerName hi hinner
    obtain rfl := eq_of_splitContainerName houter
    exact neat_led hname hne ho hrest
  · next houter hinner =>
    rcases h with ⟨-, hname⟩ | ⟨-, hname⟩
    · exact absurd (congrArg Prod.fst houter) hname
    · exact absurd (congrArg Prod.fst hinner) hname

/-- Without names, parts are joined by `and`. -/
theorem mergePart_of_not_named (ho : ¬ IsNamed kind o)
    (hi : ¬ IsNamed kind i) :
    mergePart kind o i = conjoin o i := by
  unfold mergePart
  split
  · next hkind =>
    rw [conjoinContainer_eq]
    split
    · next houter _ => exact absurd ⟨hkind, by simp [houter]⟩ ho
    · next houter _ => exact absurd ⟨hkind, by simp [houter]⟩ ho
    · next hinner => exact absurd ⟨hkind, by simp [hinner]⟩ hi
    · rfl
  · rfl

/-- Joining two neat parts puts no two blanks side by side. -/
theorem singleSpaced_conjoin (ho : Neat o) (hi : Neat i) :
    SingleSpaced (conjoin o i) := by
  have hand : SingleSpaced conjunction := by decide
  have hfront : SingleSpaced (o ++ conjunction) :=
    ho.spaced.append hand (.inl ho.trimmed.2)
  exact hfront.append hi.spaced (.inr hi.trimmed.1)

/-- Nor does merging them. -/
theorem singleSpaced_mergePart (ho : Neat o) (hi : Neat i) :
    SingleSpaced (mergePart kind o i) := by
  by_cases h : IsNamed kind o ∨ IsNamed kind i
  · exact (neat_mergePart_of_named ho hi h).spaced
  · rw [not_or] at h
    rw [mergePart_of_not_named h.1 h.2]
    exact singleSpaced_conjoin ho hi

/-- Only an empty outer alternative leaves a blank at the start. -/
theorem isBlank_head?_mergePart_iff (ho : Neat o) (hi : Neat i) :
    (∀ c ∈ (mergePart kind o i).head?, isBlank c = false)
      ↔ (o = [] → IsNamed kind i) := by
  by_cases h : IsNamed kind o ∨ IsNamed kind i
  · have hneat : Neat (mergePart kind o i) := neat_mergePart_of_named ho hi h
    refine iff_of_true hneat.trimmed.1 fun hnil => ?_
    exact h.resolve_left fun hnamed => hnamed.ne_nil hnil
  · rw [not_or] at h
    rw [mergePart_of_not_named h.1 h.2]
    cases o with
    | nil =>
      refine iff_of_false (fun hstart => ?_) fun hnamed => h.2 (hnamed rfl)
      exact absurd (hstart ' ' rfl) (by decide)
    | cons c rest => exact iff_of_true ho.trimmed.1 nofun

/-- Only an empty inner alternative leaves a blank at the end. -/
theorem isBlank_getLast?_mergePart_iff (ho : Neat o) (hi : Neat i) :
    (∀ c ∈ (mergePart kind o i).getLast?, isBlank c = false)
      ↔ (i = [] → IsNamed kind o) := by
  by_cases h : IsNamed kind o ∨ IsNamed kind i
  · have hneat : Neat (mergePart kind o i) := neat_mergePart_of_named ho hi h
    refine iff_of_true hneat.trimmed.2 fun hnil => ?_
    exact h.resolve_right fun hnamed => hnamed.ne_nil hnil
  · rw [not_or] at h
    rw [mergePart_of_not_named h.1 h.2, conjoin, List.getLast?_append]
    by_cases hnil : i = []
    · subst hnil
      refine iff_of_false (fun hend => ?_) fun hnamed => h.1 (hnamed rfl)
      rw [List.getLast?_append] at hend
      exact absurd (hend ' ' rfl) (by decide)
    · rw [List.getLast?_eq_some_getLast hnil, Option.some_or,
        ← List.getLast?_eq_some_getLast hnil]
      exact iff_of_true hi.trimmed.2 fun h => absurd h hnil

/-- The joined alternatives, in a list. -/
theorem neat_intercalate_multiply_iff {os is : List Text} (hne : os ≠ [])
    (hne' : is ≠ []) (hos : ∀ o ∈ os, Neat o) (his : ∀ i ∈ is, Neat i) :
    Neat (", ".toList.intercalate (multiply (mergePart kind) os is))
      ↔ (∀ o ∈ os, ∀ i ∈ is, o = [] → IsNamed kind i)
        ∧ ∀ o ∈ os.getLast?, ∀ i ∈ is.getLast?, i = [] → IsNamed kind o := by
  have hparts : ∀ part ∈ multiply (mergePart kind) os is,
      SingleSpaced part ∧ part ≠ [] :=
    forall_mem_multiply.2 fun o ho i hi =>
      ⟨singleSpaced_mergePart (hos o ho) (his i hi), mergePart_ne_nil kind o i⟩
  rw [Text.neat_intercalate_iff (multiply_ne_nil _ hne hne') hparts,
    forall_mem_multiply, getLast?_multiply]
  refine and_congr ?_ ?_
  · exact forall₄_congr fun o ho i hi =>
      isBlank_head?_mergePart_iff (hos o ho) (his i hi)
  · have hlast : (∀ c ∈ (mergePart kind (os.getLast hne)
          (is.getLast hne')).getLast?, isBlank c = false)
        ↔ (is.getLast hne' = [] → IsNamed kind (os.getLast hne)) :=
      isBlank_getLast?_mergePart_iff (hos _ (List.getLast_mem hne))
        (his _ (List.getLast_mem hne'))
    rw [List.getLast?_eq_some_getLast hne, List.getLast?_eq_some_getLast hne']
    simpa using hlast

-- ======================================================== merging

/-- Where conditions are joined, an empty alternative of the outer one meets
only alternatives with a name, and one that is the last of the inner one comes
to stand behind a name. -/
def JoinsNeatly (outer inner : Query) : Prop :=
  outer.kind = inner.kind → outer.condition ≠ [] → inner.condition ≠ [] →
    (∀ o ∈ alternatives outer.condition, ∀ i ∈ alternatives inner.condition,
      o = [] → IsNamed outer.kind i)
    ∧ ∀ o ∈ (alternatives outer.condition).getLast?,
      ∀ i ∈ (alternatives inner.condition).getLast?,
        i = [] → IsNamed outer.kind o

/-- Two neat conditions merge to a neat one exactly if they join neatly. -/
theorem neat_merge_iff (houter : Neat outer.condition)
    (hinner : Neat inner.condition) :
    Neat (outer.merge inner).condition ↔ JoinsNeatly outer inner := by
  by_cases hkind : outer.kind = inner.kind
  · by_cases hbare : outer.condition = []
    · rw [merge_of_bare_outer hbare]
      exact iff_of_true hinner fun _ h => absurd hbare h
    · by_cases hbare' : inner.condition = []
      · rw [merge_of_bare_inner hkind hbare']
        exact iff_of_true houter fun _ _ h => absurd hbare' h
      · rw [merge_eq hkind hbare hbare']
        refine (neat_intercalate_multiply_iff (alternatives_ne_nil _)
          (alternatives_ne_nil _)
          (fun _ ho => neat_of_mem_alternatives houter.spaced ho)
          (fun _ hi => neat_of_mem_alternatives hinner.spaced hi)).trans ?_
        exact ⟨fun h _ _ _ => h, fun h => h hkind hbare hbare'⟩
  · rw [merge_of_kind_ne hkind]
    exact iff_of_true hinner fun h => absurd h hkind

-- =============================================== however it is made

/-- The text of the query is read as the query, and normalizing does not change
it. -/
def IsReadBack (query : Query) : Prop :=
  ofKey? query.text = some query ∧ normalizeKey query.text = query.text

/-- What is read back is what is neat. -/
theorem isReadBack_iff : query.IsReadBack ↔ Neat query.condition := by
  constructor
  · exact fun h => ofKey?_text_eq_some_iff.1 h.1
  · intro h
    have hread : ofKey? query.text = some query := ofKey?_text_eq_some_iff.2 h
    refine ⟨hread, ?_⟩
    unfold normalizeKey
    rw [hread]

/-- How a query is made: it is read from a key, or has a condition put behind
its keyword, or is merged of two others. -/
inductive Making where
  | read (key : Text) (query : Query) (h : ofKey? key = some query)
  | written (kind : QueryKind) (condition : Text)
  | merge (outer inner : Making)

namespace Making

/-- The query that is made in the end. -/
def made : Making → Query
  | read _ query _ => query
  | written kind condition => ofCondition kind condition
  | merge outer inner => outer.made.merge inner.made

/-- All queries are like that, the one in the end and those on the way. -/
def Throughout (p : Query → Prop) : Making → Prop
  | read _ query _ => p query
  | written kind condition => p (ofCondition kind condition)
  | merge outer inner => outer.Throughout p ∧ inner.Throughout p
    ∧ p (outer.made.merge inner.made)

/-- All merges on the way join neatly. -/
def JoinsNeatly : Making → Prop
  | merge outer inner => outer.JoinsNeatly ∧ inner.JoinsNeatly
    ∧ Query.JoinsNeatly outer.made inner.made
  | _ => True

/-- What holds throughout a making holds of what is made. -/
theorem Throughout.made {p : Query → Prop} {making : Making}
    (h : making.Throughout p) : p making.made := by
  cases making with
  | read => exact h
  | written => exact h
  | merge => exact h.2.2

end Making

/-- However a query is made, all queries on the way are read back from their
texts exactly if all merges join neatly. Whatever is printed, neighbouring
at-rules differ in their texts. -/
theorem read_back_throughout_iff (making : Making) :
    (making.Throughout IsReadBack ↔ making.JoinsNeatly)
    ∧ ∀ rules, (Block.ofRules rules).IsChain fun a b =>
      ∀ query ∈ a.guard, ∀ other ∈ b.guard, query.text ≠ other.text := by
  constructor
  · induction making with
    | read key query h =>
      exact iff_of_true (isReadBack_iff.2 (neat_ofKey? h)) trivial
    | written kind condition =>
      have hneat : Neat (ofCondition kind condition).condition :=
        Text.neat_collapseSpaces condition
      exact iff_of_true (isReadBack_iff.2 hneat) trivial
    | merge outer inner houter hinner =>
      -- both sides say that the two queries are neat before they are merged
      have hmerge (ho : outer.Throughout IsReadBack)
          (hi : inner.Throughout IsReadBack) :
          (outer.made.merge inner.made).IsReadBack
            ↔ Query.JoinsNeatly outer.made inner.made :=
        isReadBack_iff.trans (neat_merge_iff
          (isReadBack_iff.1 ho.made) (isReadBack_iff.1 hi.made))
      constructor
      · rintro ⟨ho, hi, hread⟩
        exact ⟨houter.1 ho, hinner.1 hi, (hmerge ho hi).1 hread⟩
      · rintro ⟨ho, hi, hjoins⟩
        have ho' := houter.2 ho
        have hi' := hinner.2 hi
        exact ⟨ho', hi', (hmerge ho' hi').2 hjoins⟩
  · intro rules
    refine (Block.isChain_ofRules rules).imp fun a b hapart => ?_
    intro query hquery other hother htext
    rw [text_inj] at htext
    exact hapart query hquery (htext ▸ hother)

/-- An empty alternative in front of a name, and behind one. Behind a test it
leaves a blank, which is in front of a comma here. -/
example :
    let outer := ofCondition .container "card (a),  (b)".toList
    let inner := ofCondition .container " , x (c)".toList
    (outer.merge inner).text
      = "@container card (a), x (c), (b) and , x (b) and (c)".toList
    ∧ ofKey? (outer.merge inner).text = some (outer.merge inner) := by
  decide +kernel

/-- A condition that is nothing but a comma has two empty alternatives. The
text of the merge is read as another query. -/
theorem merge_of_comma_not_read_back :
    let outer := ofCondition .media ",".toList
    let inner := ofCondition .media "(a)".toList
    (outer.merge inner).text = "@media  and (a),  and (a)".toList
    ∧ ofKey? (outer.merge inner).text ≠ some (outer.merge inner)
    ∧ normalizeKey (outer.merge inner).text
      = "@media and (a), and (a)".toList := by
  decide +kernel

end Query

end StyleTree
