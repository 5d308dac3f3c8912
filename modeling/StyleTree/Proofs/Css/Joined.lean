/-
Removing duplicates from parts first, and then from all of them together, is
removing them once. What is dropped from a part is overridden by something that
stays in it, so a part says to what is in front of it exactly what it said
before.

# Overriding

That one occurrence overrides another is a transitive relation
(`Overrides.trans`), and to survive is to be overridden by nothing further on
(`survives_iff`). So of what overrides an occurrence, the last one always stays
(`survives_kept_append`), and survival does not see whether anything behind has
been sifted already.

# Two runs over one tree

The second run judges the nodes that the first one left, and it judges them by
more: by what stands behind the part as well. `survivorsAll_survivorsAll` has
the two records side by side, the smaller one first, and its induction is over
the forest with both of them growing alike. Statements are the opposite case,
where the first of several equal ones stays; they say nothing that could be
overridden, so the two passes do not meet
(`survivorsAll_keepFirstStatements`).
-/
import StyleTree.Proofs.Css.Deduped

namespace StyleTree.Css

-- ======================================================== overriding

namespace Occurrence

variable {l m o : Occurrence} {seen later a b : List Occurrence}

/-- If the first stands further on, the second has no effect. -/
def Overrides (l o : Occurrence) : Prop :=
  match o with
  | .declaration .. =>
    o.place? ≠ none ∧ l.place? = o.place?
      ∧ (o.important = true → l.important = true)
  | .sealed .. => l = o

/-- What overrides an overrider overrides what that overrides. -/
theorem Overrides.trans (hml : m.Overrides l) (hlo : l.Overrides o) :
    m.Overrides o := by
  cases o with
  | «sealed» context text =>
    have hl : l = .sealed context text := hlo
    rw [hl] at hml
    exact hml
  | declaration context selector text =>
    obtain ⟨hsome, hplace, himportant⟩ := hlo
    cases l with
    | «sealed» context' text' => exact absurd hplace.symm hsome
    | declaration context' selector' text' =>
      obtain ⟨-, hplace', himportant'⟩ := hml
      exact ⟨hsome, hplace'.trans hplace, fun h => himportant' (himportant h)⟩

/-- Only a text without a colon competes for nothing. -/
theorem place?_eq_none_iff {context selector text : Text} :
    (declaration context selector text).place? = none ↔ ':' ∉ text := by
  simp [place?]

/-- An occurrence survives exactly if nothing further on overrides it. -/
theorem survives_iff : o.Survives later ↔ ∀ l ∈ later, ¬ l.Overrides o := by
  cases o with
  | «sealed» context text =>
    constructor
    · rintro h l hl rfl
      exact h hl
    · intro h hmem
      exact h _ hmem rfl
  | declaration context selector text =>
    generalize ho : declaration context selector text = o
    have hsurvives : o.Survives later ↔ o.place? = none
        ∨ (o.important = true
          ∧ ∀ l ∈ later, l.place? = o.place? → l.important = false)
        ∨ (o.important = false ∧ ∀ l ∈ later, l.place? ≠ o.place?) := by
      rw [← ho, place?_eq_none_iff]
      exact Iff.rfl
    have hoverrides (l : Occurrence) : l.Overrides o ↔ o.place? ≠ none
        ∧ l.place? = o.place? ∧ (o.important = true → l.important = true) := by
      rw [← ho]
      exact Iff.rfl
    -- what has no place is not overridden; else its importance decides
    simp only [hsurvives, hoverrides]
    by_cases hnone : o.place? = none
    · simp [hnone]
    · cases himportant : o.important <;> simp [hnone]

/-- To survive two stretches is to survive each of them. -/
theorem survives_append :
    o.Survives (a ++ b) ↔ o.Survives a ∧ o.Survives b := by
  simp only [survives_iff, List.forall_mem_append]

/-- Whatever the second list lets stand, the first does. -/
def Spares (a b : List Occurrence) : Prop :=
  ∀ o : Occurrence, o.Survives b → o.Survives a

/-- An empty list lets everything stand. -/
theorem spares_nil (b : List Occurrence) : Spares [] b := by
  intro o _
  rw [survives_iff]
  exact fun _ hl => nomatch hl

/-- What stands in front of both lists overrides the same. -/
theorem Spares.append_left (h : Spares a b) (front : List Occurrence) :
    Spares (front ++ a) (front ++ b) := by
  intro o ho
  rw [survives_append] at ho ⊢
  exact ⟨ho.1, h o ho.2⟩

end Occurrence

open Occurrence (Overrides Spares survives_iff survives_append)

-- ====================================================== what is kept

section Kept

variable {o : Occurrence} {seen later a b : List Occurrence}

/-- What survives of a list in front of some occurrences. -/
def kept (later occurrences : List Occurrence) : List Occurrence :=
  marked (verdicts later occurrences) occurrences

/-- The first of a list is judged by the others and by what comes after. -/
theorem kept_cons (later rest : List Occurrence) (o : Occurrence) :
    kept later (o :: rest)
      = if o.Survives (rest ++ later) then o :: kept later rest
        else kept later rest := by
  unfold kept
  rw [verdicts, marked_cons]
  simp only [decide_eq_true_eq]

/-- What was dropped from a list is not missed behind other occurrences: what
dropped it overrides whatever it overrode. -/
theorem survives_kept_append (h : Spares seen later) :
    o.Survives (kept seen a ++ later) ↔ o.Survives (a ++ later) := by
  constructor
  · intro ho
    induction a with
    | nil => exact ho
    | cons x rest ih =>
      rw [kept_cons] at ho
      rw [← List.singleton_append, List.append_assoc, survives_append]
      by_cases hx : x.Survives (rest ++ seen)
      · rw [if_pos hx, ← List.singleton_append, List.append_assoc,
          survives_append] at ho
        exact ⟨ho.1, ih ho.2⟩
      · rw [if_neg hx] at ho
        have hrest := ih ho
        refine ⟨?_, hrest⟩
        rw [survives_iff]
        intro l hl hxo
        rw [List.mem_singleton.1 hl] at hxo
        -- what overrides `x` stands in `rest` or in `seen`, and it overrides
        -- `o` too
        apply hx
        rw [survives_iff]
        intro y hy hyx
        have hstands : o.Survives (rest ++ seen) := h.append_left rest o hrest
        exact survives_iff.1 hstands y hy (hyx.trans hxo)
  · intro ho
    rw [survives_append] at ho ⊢
    refine ⟨?_, ho.2⟩
    rw [survives_iff] at ho ⊢
    intro l hl
    exact ho.1 l (marked_subset _ _ hl)

/-- Verdicts depend on what comes after only by what it lets stand. -/
theorem verdicts_congr (h : ∀ o : Occurrence, o.Survives a ↔ o.Survives b)
    (occurrences : List Occurrence) :
    verdicts a occurrences = verdicts b occurrences := by
  induction occurrences with
  | nil => rfl
  | cons o rest ih =>
    have ho : o.Survives (rest ++ a) ↔ o.Survives (rest ++ b) := by
      rw [survives_append, survives_append, h]
    rw [verdicts, verdicts, ih, decide_eq_decide.2 ho]

/-- Sifting twice, with more behind the list the second time, is sifting once
with all of it. -/
theorem kept_kept (h : Spares seen later) (occurrences : List Occurrence) :
    kept later (kept seen occurrences) = kept later occurrences := by
  induction occurrences with
  | nil => rfl
  | cons x rest ih =>
    rw [kept_cons seen, kept_cons later rest]
    by_cases hseen : x.Survives (rest ++ seen)
    · rw [if_pos hseen, kept_cons, ih]
      simp only [survives_kept_append h]
    · have hlater : ¬ x.Survives (rest ++ later) := fun hx =>
        hseen (h.append_left rest x hx)
      rw [if_neg hseen, if_neg hlater, ih]

end Kept

-- ======================================================== over a forest

/-- What is left of a node in front of some occurrences. -/
def Node.survivors (context : Text) (later : List Occurrence) (node : Node) :
    List Node :=
  node.sift (verdicts later (node.occurrences context))

/-- What is left of nodes in front of some occurrences. -/
def survivorsAll (context : Text) (later : List Occurrence)
    (nodes : List Node) : List Node :=
  siftAll (verdicts later (occurrencesAll context nodes)) nodes

section Survivors

variable {seen later : List Occurrence}

/-- A node is pruned in front of what the nodes behind it say. -/
theorem survivorsAll_cons (context : Text) (later : List Occurrence)
    (node : Node) (rest : List Node) :
    survivorsAll context later (node :: rest)
      = node.survivors context (occurrencesAll context rest ++ later)
        ++ survivorsAll context later rest := by
  have hsize : (node.occurrences []).length
      = (verdicts (occurrencesAll context rest ++ later)
          (node.occurrences context)).length := by
    rw [length_verdicts, Node.length_occurrences]
  unfold survivorsAll Node.survivors
  rw [occurrencesAll, verdicts_append, siftAll]
  simp only [hsize, List.take_left, List.drop_left]

/-- One node is pruned on its own. -/
theorem survivorsAll_singleton (context : Text) (later : List Occurrence)
    (node : Node) :
    survivorsAll context later [node] = node.survivors context later := by
  rw [survivorsAll_cons]
  exact List.append_nil _

/-- The first part of some nodes is pruned in front of what the second part
says. -/
theorem survivorsAll_append (context : Text) (later : List Occurrence)
    (a b : List Node) :
    survivorsAll context later (a ++ b)
      = survivorsAll context (occurrencesAll context b ++ later) a
        ++ survivorsAll context later b := by
  induction a with
  | nil => rfl
  | cons node rest ih =>
    rw [List.cons_append, survivorsAll_cons, survivorsAll_cons, ih,
      occurrencesAll_append, List.append_assoc, List.append_assoc]

/-- What is left of some nodes says what is kept of what they say. -/
theorem occurrencesAll_survivorsAll (context : Text)
    (later : List Occurrence) (nodes : List Node) :
    occurrencesAll context (survivorsAll context later nodes)
      = kept later (occurrencesAll context nodes) :=
  occurrencesAll_siftAll context _ nodes

/-- Pruning depends on what comes after only by what it lets stand. -/
theorem survivorsAll_congr {a b : List Occurrence}
    (h : ∀ o : Occurrence, o.Survives a ↔ o.Survives b) (context : Text)
    (nodes : List Node) :
    survivorsAll context a nodes = survivorsAll context b nodes := by
  unfold survivorsAll
  rw [verdicts_congr h]

/-- The declarations of a rule that survive a second time are those that
survive all that is behind the rule then. -/
theorem survivorsAll_survivors_rule (h : Spares seen later)
    (context selector : Text) (declarations : List Text) :
    survivorsAll context later
        ((Node.rule selector declarations).survivors context seen)
      = (Node.rule selector declarations).survivors context later := by
  generalize hf : Occurrence.declaration context selector = f
  have hinjective : ∀ a b, f a = f b → a = b := by
    rw [← hf]
    intro a b hab
    injection hab
  have hoccurrences (texts : List Text) :
      (Node.rule selector texts).occurrences context = texts.map f := by
    rw [← hf]
    rfl
  have hsurvivors (after : List Occurrence) (texts : List Text) :
      (Node.rule selector texts).survivors context after
        = if (marked (verdicts after (texts.map f)) texts).isEmpty then []
          else [.rule selector
            (marked (verdicts after (texts.map f)) texts)] := by
    rw [Node.survivors, hoccurrences]
    rfl
  have hkept (after : List Occurrence) (texts : List Text) :
      (marked (verdicts after (texts.map f)) texts).map f
        = kept after (texts.map f) := (marked_map f _ texts).symm
  generalize hfirst : marked (verdicts seen (declarations.map f)) declarations
    = first
  have hmap : first.map f = kept seen (declarations.map f) := by
    rw [← hfirst, hkept]
  -- the texts are told apart by the occurrences that they stand for
  have hsecond : marked (verdicts later (first.map f)) first
      = marked (verdicts later (declarations.map f)) declarations := by
    refine (List.map_inj_right hinjective).1 ?_
    rw [hkept, hkept, hmap, kept_kept h]
  rw [hsurvivors seen, hfirst]
  -- a rule that lost all its declarations is gone before the second time
  by_cases hempty : first.isEmpty = true
  · rw [if_pos hempty, hsurvivors, ← hsecond, List.isEmpty_iff.1 hempty]
    rfl
  · rw [if_neg hempty, survivorsAll_singleton, hsurvivors, hsurvivors,
      hsecond]

end Survivors

mutual

/-- One node, pruned once more with other things behind it. The cases are those
of a node; in a block the induction hypothesis is about its children, in the
context inside. -/
theorem Node.survivorsAll_survivors {seen later : List Occurrence}
    (h : Spares seen later) (context : Text) (node : Node) :
    survivorsAll context later (node.survivors context seen)
      = node.survivors context later := by
  cases node with
  | statement text => rfl
  | rule selector declarations =>
    exact survivorsAll_survivors_rule h context selector declarations
  | «sealed» text =>
    have hsurvivors (after : List Occurrence) :
        (Node.sealed text).survivors context after
          = if (Occurrence.sealed context text).Survives after
            then [.sealed text] else [] := by
      show marked [decide _] _ = _
      rw [marked_cons]
      simp only [List.nil_append, decide_eq_true_eq]
      rfl
    rw [hsurvivors seen]
    by_cases hseen : (Occurrence.sealed context text).Survives seen
    · rw [if_pos hseen, survivorsAll_singleton]
    · -- what did not survive less does not survive more
      have hlater : ¬ (Occurrence.sealed context text).Survives later :=
        fun hlater => hseen (h _ hlater)
      rw [if_neg hseen, hsurvivors, if_neg hlater]
      rfl
  | block heading children =>
    generalize hinner : context ++ heading ++ ['\x1f'] = inner
    have hsurvivors (after : List Occurrence) (nodes : List Node) :
        (Node.block heading nodes).survivors context after
          = if (survivorsAll inner after nodes).isEmpty then []
            else [.block heading (survivorsAll inner after nodes)] := by
      rw [Node.survivors, Node.sift, Node.occurrences, hinner]
      rfl
    have hchildren := survivorsAll_survivorsAll h inner children
    rw [hsurvivors seen]
    -- a block that lost all its children is gone before the second time
    by_cases hempty : (survivorsAll inner seen children).isEmpty = true
    · rw [if_pos hempty, hsurvivors, ← hchildren, List.isEmpty_iff.1 hempty]
      rfl
    · rw [if_neg hempty, survivorsAll_singleton, hsurvivors, hsurvivors,
        hchildren]
termination_by structural node

/-- Pruning a forest that was pruned already, with more behind it this time, is
pruning it once with all of that behind it. -/
theorem survivorsAll_survivorsAll {seen later : List Occurrence}
    (h : Spares seen later) (context : Text) (nodes : List Node) :
    survivorsAll context later (survivorsAll context seen nodes)
      = survivorsAll context later nodes := by
  cases nodes with
  | nil => rfl
  | cons node rest =>
    have hbehind (o : Occurrence) :
        o.Survives (occurrencesAll context (survivorsAll context seen rest)
          ++ later) ↔ o.Survives (occurrencesAll context rest ++ later) := by
      rw [occurrencesAll_survivorsAll]
      exact survives_kept_append h
    rw [survivorsAll_cons context seen, survivorsAll_append,
      survivorsAll_congr hbehind,
      Node.survivorsAll_survivors (h.append_left _) context node,
      survivorsAll_survivorsAll h context rest, ← survivorsAll_cons]
termination_by structural nodes

end

-- ========================================================= statements

/-- No node becomes a statement. -/
theorem Node.not_statement_of_mem_survivors {context : Text}
    {later : List Occurrence} {node left : Node}
    (hnode : ¬ ∃ text, node = .statement text)
    (hleft : left ∈ node.survivors context later) :
    ¬ ∃ text, left = .statement text := by
  rintro ⟨text, rfl⟩
  unfold Node.survivors at hleft
  cases node with
  | statement text' => exact hnode ⟨text', rfl⟩
  | rule selector declarations =>
    rw [Node.sift] at hleft
    split at hleft
    · cases hleft
    · cases List.mem_singleton.1 hleft
  | «sealed» text' =>
    cases List.mem_singleton.1 (marked_subset _ _ hleft)
  | block heading children =>
    rw [Node.sift] at hleft
    split at hleft
    · cases hleft
    · cases List.mem_singleton.1 hleft

/-- Nodes without statements pass as they are. -/
theorem keepFirstStatements_append_of_plain {nodes : List Node}
    (h : ∀ node ∈ nodes, ¬ ∃ text, node = .statement text)
    (seen : List Text) (rest : List Node) :
    keepFirstStatements seen (nodes ++ rest)
      = nodes ++ keepFirstStatements seen rest := by
  induction nodes with
  | nil => rfl
  | cons node others ih =>
    obtain ⟨hnode, hothers⟩ := List.forall_mem_cons.1 h
    rw [List.cons_append, keepFirstStatements_cons hnode, ih hothers]
    rfl

/-- Which statements are repeated and what is overridden are independent of
each other. -/
theorem survivorsAll_keepFirstStatements (context : Text)
    (later : List Occurrence) (seen : List Text) (nodes : List Node) :
    survivorsAll context later (keepFirstStatements seen nodes)
      = keepFirstStatements seen (survivorsAll context later nodes) := by
  induction nodes generalizing seen with
  | nil => rfl
  | cons node rest ih =>
    rw [survivorsAll_cons]
    by_cases hstatement : ∃ text, node = .statement text
    · obtain ⟨text, rfl⟩ := hstatement
      show _ = keepFirstStatements seen
        (.statement text :: survivorsAll context later rest)
      rw [keepFirstStatements, keepFirstStatements]
      split
      · exact ih seen
      · rw [survivorsAll_cons, ih]
        rfl
    · rw [keepFirstStatements_cons hstatement, survivorsAll_cons,
        occurrencesAll_keepFirstStatements, ih]
      exact (keepFirstStatements_append_of_plain (fun left hleft =>
        Node.not_statement_of_mem_survivors hstatement hleft) seen _).symm

/-- A statement that is dropped because it stood before would be dropped by a
longer memory too. -/
theorem keepFirstStatements_keepFirstStatements {seen known : List Text}
    (h : known ⊆ seen) (nodes behind : List Node) :
    keepFirstStatements seen (keepFirstStatements known nodes ++ behind)
      = keepFirstStatements seen (nodes ++ behind) := by
  induction nodes generalizing seen known with
  | nil => rfl
  | cons node rest ih =>
    rw [List.cons_append]
    by_cases hstatement : ∃ text, node = .statement text
    · obtain ⟨text, rfl⟩ := hstatement
      rw [keepFirstStatements, keepFirstStatements]
      by_cases hknown : text ∈ known
      · rw [if_pos hknown, if_pos (h hknown), ih h]
      · rw [if_neg hknown, List.cons_append, keepFirstStatements]
        by_cases hseen : text ∈ seen
        · rw [if_pos hseen, if_pos hseen,
            ih (List.cons_subset.2 ⟨hseen, h⟩)]
        · rw [if_neg hseen, if_neg hseen,
            ih (List.cons_subset_cons text h)]
    · rw [keepFirstStatements_cons hstatement, List.cons_append,
        keepFirstStatements_cons hstatement,
        keepFirstStatements_cons hstatement, ih h]

/-- Whatever stands in front, the second part may be exchanged for one that
passes alike. -/
theorem keepFirstStatements_append_congr {a b : List Node}
    (h : ∀ seen, keepFirstStatements seen a = keepFirstStatements seen b)
    (front : List Node) (seen : List Text) :
    keepFirstStatements seen (front ++ a)
      = keepFirstStatements seen (front ++ b) := by
  induction front generalizing seen with
  | nil => exact h seen
  | cons node rest ih =>
    rw [List.cons_append, List.cons_append]
    by_cases hstatement : ∃ text, node = .statement text
    · obtain ⟨text, rfl⟩ := hstatement
      rw [keepFirstStatements, keepFirstStatements, ih, ih]
    · rw [keepFirstStatements_cons hstatement,
        keepFirstStatements_cons hstatement, ih]

-- ======================================================= part by part

section Parts

variable {front part behind : List Node}

/-- A part may be pruned before the whole is. -/
theorem survivorsAll_part (front part behind : List Node) :
    survivorsAll [] [] (front ++ (survivorsAll [] [] part ++ behind))
      = survivorsAll [] [] (front ++ (part ++ behind)) := by
  have hbehind (o : Occurrence) :
      o.Survives (occurrencesAll [] (survivorsAll [] [] part ++ behind) ++ [])
        ↔ o.Survives (occurrencesAll [] (part ++ behind) ++ []) := by
    rw [occurrencesAll_append, occurrencesAll_append, List.append_assoc,
      List.append_assoc, occurrencesAll_survivorsAll]
    exact survives_kept_append (Occurrence.spares_nil _)
  simp only [survivorsAll_append [] [] front, survivorsAll_congr hbehind,
    survivorsAll_append [] [] _ behind,
    survivorsAll_survivorsAll (Occurrence.spares_nil _)]

/-- And the statements of the part may be gone through before those of the
whole. -/
theorem keepFirstStatements_part (front part behind : List Node) :
    keepFirstStatements []
        (survivorsAll [] [] (front ++ (keepFirstStatements [] part ++ behind)))
      = keepFirstStatements []
        (survivorsAll [] [] (front ++ (part ++ behind))) := by
  rw [survivorsAll_append, survivorsAll_append, survivorsAll_append,
    survivorsAll_append, occurrencesAll_append, occurrencesAll_append,
    occurrencesAll_keepFirstStatements, survivorsAll_keepFirstStatements]
  apply keepFirstStatements_append_congr
  intro seen
  exact keepFirstStatements_keepFirstStatements (List.nil_subset seen) _ _

/-- Removing duplicates from a part does not change what is removed from the
whole. -/
theorem Node.dedupe_part (hfront : ∀ node ∈ front, node.WellFormed)
    (hpart : ∀ node ∈ part, node.WellFormed)
    (hbehind : ∀ node ∈ behind, node.WellFormed) :
    Node.dedupe (front ++ (Node.dedupe part ++ behind))
      = Node.dedupe (front ++ (part ++ behind)) := by
  have hwhole {middle : List Node}
      (hmiddle : ∀ node ∈ middle, node.WellFormed) :
      Node.dedupe (front ++ (middle ++ behind)) = keepFirstStatements []
        (survivorsAll [] [] (front ++ (middle ++ behind))) :=
    dedupe_eq (allFilled_of_wellFormed (List.forall_mem_append.2
      ⟨hfront, List.forall_mem_append.2 ⟨hmiddle, hbehind⟩⟩))
  have hdedupe : Node.dedupe part
      = keepFirstStatements [] (survivorsAll [] [] part) :=
    dedupe_eq (allFilled_of_wellFormed hpart)
  rw [hwhole (wellFormed_dedupe hpart), hwhole hpart, hdedupe,
    keepFirstStatements_part, survivorsAll_part]

/-- All parts may be freed of duplicates first, one after the other. The
induction is on the parts, with those that are done in front. -/
theorem Node.dedupe_parts (hfront : ∀ node ∈ front, node.WellFormed)
    {forests : List (List Node)}
    (h : ∀ forest ∈ forests, ∀ node ∈ forest, node.WellFormed) :
    Node.dedupe (front ++ forests.flatMap Node.dedupe)
      = Node.dedupe (front ++ forests.flatten) := by
  induction forests generalizing front with
  | nil => rfl
  | cons forest rest ih =>
    obtain ⟨hforest, hrest⟩ := List.forall_mem_cons.1 h
    have hbehind : ∀ node ∈ rest.flatMap Node.dedupe, node.WellFormed := by
      intro node hnode
      obtain ⟨part, hpart, hnode⟩ := List.mem_flatMap.1 hnode
      exact wellFormed_dedupe (hrest part hpart) node hnode
    rw [List.flatMap_cons, List.flatten_cons,
      Node.dedupe_part hfront hforest hbehind, ← List.append_assoc,
      ih (List.forall_mem_append.2 ⟨hfront, hforest⟩) hrest,
      List.append_assoc]

end Parts

/-- Forests one behind the other are rendered one behind the other. -/
theorem renderAll_flatMap {α : Type} (f : α → List Node) (xs : List α) :
    renderAll (xs.flatMap f) = xs.flatMap fun x => renderAll (f x) := by
  induction xs with
  | nil => rfl
  | cons x rest ih =>
    rw [List.flatMap_cons, List.flatMap_cons, renderAll_append, ih]

/-- Removing duplicates from each part first, and then from the parts put
together, is removing them from the parts put together. -/
theorem dedupe_flatMap_dedupe (forests : List (List Node))
    (h : ∀ forest ∈ forests, ∀ node ∈ forest, node.WellFormed) :
    dedupe (forests.flatMap fun forest => dedupe (renderAll forest))
      = dedupe (forests.flatMap renderAll) := by
  have hall : ∀ node ∈ forests.flatten, node.WellFormed := by
    intro node hnode
    obtain ⟨forest, hforest, hnode⟩ := List.mem_flatten.1 hnode
    exact h forest hforest node hnode
  have hparts : ∀ node ∈ forests.flatMap Node.dedupe, node.WellFormed := by
    intro node hnode
    obtain ⟨forest, hforest, hnode⟩ := List.mem_flatMap.1 hnode
    exact wellFormed_dedupe (h forest hforest) node hnode
  have htexts : (forests.flatMap fun forest => dedupe (renderAll forest))
      = renderAll (forests.flatMap Node.dedupe) := by
    rw [renderAll_flatMap, List.flatMap_def, List.flatMap_def,
      List.map_congr_left fun forest hforest =>
        dedupe_renderAll (h forest hforest)]
  have hnodes : Node.dedupe (forests.flatMap Node.dedupe)
      = Node.dedupe forests.flatten :=
    Node.dedupe_parts (List.forall_mem_nil _) h
  calc dedupe (forests.flatMap fun forest => dedupe (renderAll forest))
      = dedupe (renderAll (forests.flatMap Node.dedupe)) := by rw [htexts]
    _ = renderAll (Node.dedupe (forests.flatMap Node.dedupe)) :=
        dedupe_renderAll hparts
    _ = renderAll (Node.dedupe forests.flatten) := by rw [hnodes]
    _ = dedupe (renderAll forests.flatten) := (dedupe_renderAll hall).symm
    _ = dedupe (forests.flatMap renderAll) := by
        rw [List.flatten_eq_flatMap, renderAll_flatMap]
        rfl

/-- Two stylesheets with the same import and the same font, where the first has
an important declaration that the second does not override. -/
def importedTwice : List (List Node) := [
  [.statement "@import \"a;b\";".toList,
    .rule ".a".toList ["x:1 !important".toList, "y:2".toList],
    .sealed "@font-face\x7bsrc:url(f;g)\x7d".toList,
    .block "@media print".toList [
      .rule ".a".toList ["x:1".toList],
      .block "@supports (gap:1px)".toList [
        .rule ".a".toList ["x:1".toList, "z:3".toList]]]],
  [.statement "@import \"a;b\";".toList,
    .rule ".a".toList ["y:4".toList],
    .sealed "@font-face\x7bsrc:url(f;g)\x7d".toList,
    .block "@media print".toList [
      .block "@supports (gap:1px)".toList [
        .rule ".a".toList ["x:5".toList]]]]]

/-- The two stylesheets, joined. -/
theorem dedupe_flatMap_dedupe_importedTwice :
    (∀ forest ∈ importedTwice, ∀ node ∈ forest, node.WellFormed)
    ∧ dedupe (importedTwice.flatMap fun forest => dedupe (renderAll forest))
      = dedupe (importedTwice.flatMap renderAll) := by
  have himport : (Node.statement "@import \"a;b\";".toList).WellFormed :=
    ⟨"@import \"a;b\"".toList, rfl, by decide +kernel⟩
  have hfont : (Node.sealed "@font-face\x7bsrc:url(f;g)\x7d".toList).Braced :=
    ⟨"@font-face".toList, ["src:url(f;g)".toList], by decide +kernel⟩
  have hrule {declarations : List Text} (h : declarations ≠ []
      ∧ AreDeclarations declarations) :
      (Node.rule ".a".toList declarations).Braced :=
    ⟨by decide +kernel, rfl, h⟩
  have hprint {children : List Node} (h : children ≠ [] ∧ AllBraced children) :
      (Node.block "@media print".toList children).Braced :=
    ⟨by decide +kernel, rfl, h⟩
  have hgap {children : List Node} (h : children ≠ [] ∧ AllBraced children) :
      (Node.block "@supports (gap:1px)".toList children).Braced :=
    ⟨by decide +kernel, rfl, h⟩
  have hall : ∀ forest ∈ importedTwice, ∀ node ∈ forest, node.WellFormed := by
    unfold importedTwice
    simp only [List.forall_mem_cons, List.not_mem_nil, false_implies,
      implies_true, and_true]
    refine ⟨⟨himport, hrule (by decide +kernel), hfont, hprint ⟨by simp, ?_⟩⟩,
      himport, hrule (by decide +kernel), hfont, hprint ⟨by simp, ?_⟩⟩
    · exact ⟨hrule (by decide +kernel),
        hgap ⟨by simp, hrule (by decide +kernel), trivial⟩, trivial⟩
    · exact ⟨hgap ⟨by simp, hrule (by decide +kernel), trivial⟩, trivial⟩
  exact ⟨hall, dedupe_flatMap_dedupe importedTwice hall⟩

end StyleTree.Css
