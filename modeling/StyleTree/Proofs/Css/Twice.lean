/-
Removing duplicates twice. The second run reads the text that the first one
wrote, and what it reads is nearly what was written: a block that lost all its
rules and kept its statements has become one sealed text. No declaration is
dropped in the second run, since nothing overrides a declaration but another
one, and those are the same as before (`declarationsAll_reread`). So the text
stays as it is exactly if no sealed text, old or new, is there twice in one
context (`dedupe_dedupe_iff`).

# From nodes to texts

What is dropped is decided for nodes, and the texts are compared. Both come to
the same because dropping shortens: no node that is left is empty, so a forest
is either left as it is or has a shorter text (`siftAll_eq_or_lt`).
-/
import StyleTree.Proofs.Css.Joined
import StyleTree.Proofs.Css.Reread

namespace StyleTree.Css

-- ================================================= nothing overridden

namespace Occurrence

variable {l o : Occurrence} {occurrences : List Occurrence}

/-- The occurrence is a sealed text, not a declaration. -/
def isSealed : Occurrence → Bool
  | .declaration .. => false
  | .sealed .. => true

/-- Declarations are overridden by declarations, and sealed texts by sealed
ones. -/
theorem Overrides.isSealed_eq (h : l.Overrides o) :
    l.isSealed = o.isSealed := by
  cases o with
  | «sealed» context text =>
    have hl : l = .sealed context text := h
    rw [hl]
  | declaration context selector text =>
    obtain ⟨hsome, hplace, -⟩ := h
    cases l with
    | «sealed» context' text' => exact absurd hplace.symm hsome
    | declaration context' selector' text' => rfl

/-- Nothing is overridden by what stands behind it. -/
def Standing (occurrences : List Occurrence) : Prop :=
  occurrences.Pairwise fun o l => ¬ l.Overrides o

/-- The first one has to survive the others, and the others each other. -/
theorem standing_cons {rest : List Occurrence} :
    Standing (o :: rest) ↔ o.Survives rest ∧ Standing rest := by
  rw [Standing, List.pairwise_cons, survives_iff]
  rfl

/-- The two kinds can be looked at one by one. -/
theorem standing_iff : Standing occurrences
    ↔ Standing (occurrences.filter (!·.isSealed))
      ∧ Standing (occurrences.filter (·.isSealed)) := by
  induction occurrences with
  | nil => simp [Standing]
  | cons o rest ih =>
    have hsame : o.Survives rest
        ↔ o.Survives (rest.filter fun l => l.isSealed == o.isSealed) := by
      simp only [survives_iff, List.mem_filter, beq_iff_eq, and_imp]
      exact ⟨fun h l hl _ => h l hl, fun h l hl hlo =>
        h l hl hlo.isSealed_eq hlo⟩
    rw [standing_cons, ih, hsame]
    cases hkind : o.isSealed with
    | false =>
      rw [List.filter_cons_of_pos (by simp [hkind]),
        List.filter_cons_of_neg (by simp [hkind]), standing_cons, and_assoc]
      simp only [beq_false]
    | true =>
      rw [List.filter_cons_of_neg (by simp [hkind]),
        List.filter_cons_of_pos (by simp [hkind]), standing_cons,
        and_left_comm]
      simp only [beq_true]

/-- Of sealed texts only equal ones are dropped. -/
theorem standing_map_sealed {units : List (Text × Text)} :
    Standing (units.map fun unit => .sealed unit.1 unit.2) ↔ units.Nodup := by
  rw [Standing, List.pairwise_map, List.nodup_iff_pairwise_ne]
  refine List.Pairwise.iff fun a b => not_congr ⟨fun h => ?_, ?_⟩
  · have heq : Occurrence.sealed b.1 b.2 = .sealed a.1 a.2 := h
    injection heq with hcontext htext
    exact Prod.ext hcontext.symm htext.symm
  · rintro rfl
    rfl

end Occurrence

open Occurrence (Standing standing_cons standing_iff standing_map_sealed)

theorem length_kept_le (later occurrences : List Occurrence) :
    (kept later occurrences).length ≤ occurrences.length :=
  (marked_sublist _ _).length_le

/-- Everything is kept exactly if nothing overrides anything. -/
theorem kept_eq_self_iff {occurrences : List Occurrence} :
    kept [] occurrences = occurrences ↔ Standing occurrences := by
  induction occurrences with
  | nil => simp [kept, Standing]
  | cons o rest ih =>
    rw [kept_cons, standing_cons, List.append_nil]
    by_cases ho : o.Survives rest
    · rw [if_pos ho, List.cons_inj_right, ih, and_iff_right ho]
    · rw [if_neg ho]
      refine ⟨fun heq => ?_, fun h => absurd h.1 ho⟩
      have hlength := length_kept_le [] rest
      rw [heq, List.length_cons] at hlength
      omega

/-- Where nothing is overridden every verdict is to keep. -/
theorem verdicts_of_standing {occurrences : List Occurrence}
    (h : Standing occurrences) :
    verdicts [] occurrences = List.replicate occurrences.length true := by
  induction occurrences with
  | nil => rfl
  | cons o rest ih =>
    obtain ⟨ho, hrest⟩ := standing_cons.1 h
    rw [verdicts, List.append_nil, decide_eq_true ho, ih hrest]
    rfl

-- ====================================================== nothing empty

mutual

/-- The node is not empty, and no node in it is. -/
def Node.Full : Node → Prop
  | .statement text => text ≠ []
  | .rule _ declarations => declarations ≠ []
  | .sealed text => text ≠ []
  | .block _ children => children ≠ [] ∧ AllFull children
termination_by structural node => node

/-- No node is empty, and no node in them is. -/
def AllFull : List Node → Prop
  | [] => True
  | node :: rest => node.Full ∧ AllFull rest
termination_by structural nodes => nodes

end

theorem allFull_iff {nodes : List Node} :
    AllFull nodes ↔ ∀ node ∈ nodes, node.Full := by
  induction nodes with
  | nil => simp [AllFull]
  | cons node rest ih => rw [AllFull, List.forall_mem_cons, ih]

mutual

/-- A node that is not empty has no empty text that stands for a node. -/
theorem Node.Full.isFilled (node : Node) (h : node.Full) : node.IsFilled := by
  cases node with
  | statement text => exact h
  | rule selector declarations => trivial
  | «sealed» text => exact h
  | block heading children => exact AllFull.allFilled children h.2
termination_by structural node

theorem AllFull.allFilled (nodes : List Node) (h : AllFull nodes) :
    AllFilled nodes := by
  cases nodes with
  | nil => trivial
  | cons node rest =>
    exact ⟨Node.Full.isFilled node h.1, AllFull.allFilled rest h.2⟩
termination_by structural nodes

end

mutual

/-- Pruning drops what it empties. -/
theorem Node.IsFilled.sift (node : Node) (h : node.IsFilled)
    (marks : List Bool) : AllFull (node.sift marks) := by
  cases node with
  | statement text => exact ⟨h, trivial⟩
  | rule selector declarations =>
    rw [Node.sift]
    split
    · trivial
    · next hne => exact ⟨by simpa [Node.Full] using hne, trivial⟩
  | «sealed» text =>
    rw [Node.sift, allFull_iff]
    intro kept hkept
    rw [List.mem_singleton.1 (marked_subset _ _ hkept)]
    exact h
  | block heading children =>
    rw [Node.sift]
    split
    · trivial
    · next hne =>
      exact ⟨⟨by simpa using hne, AllFilled.siftAll children h marks⟩, trivial⟩
termination_by structural node

/-- Sifting leaves no empty nodes. -/
theorem AllFilled.siftAll (nodes : List Node) (h : AllFilled nodes)
    (marks : List Bool) : AllFull (siftAll marks nodes) := by
  cases nodes with
  | nil => trivial
  | cons node rest =>
    rw [Css.siftAll, allFull_iff, List.forall_mem_append, ← allFull_iff,
      ← allFull_iff]
    exact ⟨Node.IsFilled.sift node h.1 _, AllFilled.siftAll rest h.2 _⟩
termination_by structural nodes

end

mutual

/-- No node becomes empty by being reread. -/
theorem Node.Full.reread (node : Node) (h : node.Full) : node.reread.Full := by
  cases node with
  | statement text => exact h
  | rule selector declarations => exact h
  | «sealed» text => exact h
  | block heading children =>
    rw [Node.reread]
    split
    · simp [Node.Full]
    · refine ⟨?_, AllFull.reread children h.2⟩
      obtain ⟨child, rest, rfl⟩ := List.exists_cons_of_ne_nil h.1
      exact List.cons_ne_nil _ _
termination_by structural node

theorem AllFull.reread (nodes : List Node) (h : AllFull nodes) :
    AllFull (rereadAll nodes) := by
  cases nodes with
  | nil => trivial
  | cons node rest =>
    exact ⟨Node.Full.reread node h.1, AllFull.reread rest h.2⟩
termination_by structural nodes

end

-- ================================================= dropping shortens

section Shorter

variable {xs ys : List Text}

/-- What texts take between the semicolons of a rule, each with its own. -/
def weight : List Text → Nat
  | [] => 0
  | text :: rest => text.length + 1 + weight rest

/-- A part of the texts is all of them or weighs less. -/
theorem eq_or_weight_lt_of_sublist (h : xs.Sublist ys) :
    xs = ys ∨ weight xs < weight ys := by
  induction h with
  | slnil => exact .inl rfl
  | @cons xs ys y _ ih =>
    refine .inr ?_
    have hle : weight xs ≤ weight ys :=
      ih.elim (fun heq => heq ▸ Nat.le_refl _) Nat.le_of_lt
    simp only [weight] at hle ⊢
    omega
  | @cons_cons xs ys y _ ih =>
    refine ih.imp (congrArg (y :: ·)) fun hlt => ?_
    simp only [weight] at hlt ⊢
    omega

/-- The weight of texts counts their characters and a semicolon for each, one
more than is written. -/
theorem length_intercalate (h : xs ≠ []) :
    ([';'].intercalate xs).length + 1 = weight xs := by
  induction xs with
  | nil => exact absurd rfl h
  | cons first others ih =>
    cases others with
    | nil => simp [weight]
    | cons second others =>
      have hothers := ih (List.cons_ne_nil second others)
      rw [List.intercalate_cons_cons, List.length_append, List.length_append,
        List.length_singleton]
      simp only [weight] at hothers ⊢
      omega

theorem length_renderAll_of_sublist {a b : List Node} (h : a.Sublist b) :
    (renderAll a).length ≤ (renderAll b).length := by
  induction h with
  | slnil => exact Nat.le_refl _
  | cons node _ ih =>
    rw [renderAll, List.length_append]
    omega
  | cons_cons node _ ih =>
    rw [renderAll, renderAll, List.length_append, List.length_append]
    omega

/-- A node that is not empty has a text. -/
theorem Node.Full.render_ne_nil {node : Node} (h : node.Full) :
    node.render ≠ [] := by
  cases node with
  | statement text => exact h
  | «sealed» text => exact h
  | rule selector declarations => simp [Node.render]
  | block heading children => simp [Node.render]

/-- Fewer declarations make a rule shorter. -/
theorem length_render_rule_lt {selector : Text} (hxs : xs ≠ []) (hys : ys ≠ [])
    (h : weight xs < weight ys) :
    (Node.rule selector xs).render.length
      < (Node.rule selector ys).render.length := by
  rw [← length_intercalate hxs, ← length_intercalate hys] at h
  simp only [Node.render, List.length_append, List.length_cons]
  omega

/-- Shorter children make a block shorter. -/
theorem length_render_block_lt {heading : Text} {children others : List Node}
    (h : (renderAll children).length < (renderAll others).length) :
    (Node.block heading children).render.length
      < (Node.block heading others).render.length := by
  simp only [Node.render, List.length_append, List.length_cons]
  omega

end Shorter

mutual

/-- Sifting leaves a node as it is or with a shorter text. -/
theorem Node.sift_eq_or_lt (node : Node) (h : node.Full) (marks : List Bool) :
    node.sift marks = [node]
      ∨ (renderAll (node.sift marks)).length < node.render.length := by
  -- a node that goes altogether had a text
  have hgone : (renderAll []).length < node.render.length :=
    List.length_pos_iff.2 h.render_ne_nil
  cases node with
  | statement text => exact .inl rfl
  | rule selector declarations =>
    rw [Node.sift]
    by_cases hnil : marked marks declarations = []
    · rw [if_pos (List.isEmpty_iff.2 hnil)]
      exact .inr hgone
    · rw [if_neg (by simpa using hnil), renderAll_singleton]
      rcases eq_or_weight_lt_of_sublist (marked_sublist marks declarations)
        with heq | hlt
      · exact .inl (by rw [heq])
      · exact .inr (length_render_rule_lt hnil h hlt)
  | «sealed» text =>
    rw [Node.sift]
    cases marks with
    | nil => exact .inr hgone
    | cons mark marks =>
      rw [marked_cons, marked_nil]
      cases mark with
      | true => exact .inl rfl
      | false => exact .inr hgone
  | block heading children =>
    rw [Node.sift]
    by_cases hnil : siftAll marks children = []
    · rw [if_pos (List.isEmpty_iff.2 hnil)]
      exact .inr hgone
    · rw [if_neg (by simpa using hnil), renderAll_singleton]
      rcases siftAll_eq_or_lt children h.2 marks with heq | hlt
      · exact .inl (by rw [heq])
      · exact .inr (length_render_block_lt hlt)
termination_by structural node

/-- Either nothing is dropped or the text gets shorter. -/
theorem siftAll_eq_or_lt (nodes : List Node) (h : AllFull nodes)
    (marks : List Bool) : siftAll marks nodes = nodes
      ∨ (renderAll (siftAll marks nodes)).length
        < (renderAll nodes).length := by
  cases nodes with
  | nil => exact .inl rfl
  | cons node rest =>
    have hnode := Node.sift_eq_or_lt node h.1
      (marks.take (node.occurrences []).length)
    have hrest := siftAll_eq_or_lt rest h.2
      (marks.drop (node.occurrences []).length)
    rw [siftAll, renderAll_append, renderAll, List.length_append,
      List.length_append]
    have hone := congrArg List.length (renderAll_singleton node)
    -- one of the two that got shorter is enough, as the other gets no longer
    rcases hnode with hnode | hnode <;> rcases hrest with hrest | hrest
    · exact .inl (by rw [hnode, hrest]; rfl)
    · exact .inr (by rw [hnode]; omega)
    · exact .inr (by rw [hrest]; omega)
    · exact .inr (by omega)
termination_by structural nodes

end

theorem marked_replicate_true {α : Type} (xs : List α) :
    marked (List.replicate xs.length true) xs = xs := by
  induction xs with
  | nil => rfl
  | cons x xs ih =>
    rw [List.length_cons, List.replicate_succ, marked_cons, if_pos rfl, ih]

mutual

theorem Node.sift_replicate_true (node : Node) (h : node.Full) :
    node.sift (List.replicate (node.occurrences []).length true) = [node] := by
  cases node with
  | statement text => rfl
  | rule selector declarations =>
    have hdeclarations : declarations ≠ [] := h
    rw [Node.occurrences, List.length_map, Node.sift, marked_replicate_true]
    simp [hdeclarations]
  | «sealed» text => rfl
  | block heading children =>
    rw [Node.occurrences, length_occurrencesAll _ [], Node.sift,
      siftAll_replicate_true children h.2]
    simp [h.1]
termination_by structural node

/-- Nothing is dropped that is marked. -/
theorem siftAll_replicate_true (nodes : List Node) (h : AllFull nodes) :
    siftAll (List.replicate (occurrencesAll [] nodes).length true) nodes
      = nodes := by
  cases nodes with
  | nil => rfl
  | cons node rest =>
    rw [occurrencesAll, List.length_append, ← List.replicate_append_replicate,
      siftAll]
    simp only [List.take_left', List.drop_left', List.length_replicate]
    rw [Node.sift_replicate_true node h.1, siftAll_replicate_true rest h.2]
    rfl
termination_by structural nodes

end

/-- A second text without what is overridden is the same text exactly if
nothing is overridden. -/
theorem renderAll_dedupe_eq_iff {nodes : List Node} (h : AllFull nodes)
    (hstatements : keepFirstStatements [] nodes = nodes) :
    renderAll (Node.dedupe nodes) = renderAll nodes
      ↔ Standing (occurrencesAll [] nodes) := by
  rw [dedupe_eq h.allFilled]
  generalize hmarks : verdicts [] (occurrencesAll [] nodes) = marks
  constructor
  · intro htext
    -- a shorter text is another text, so nothing was sifted out
    rcases siftAll_eq_or_lt nodes h marks with heq | hlt
    · have hkept : kept [] (occurrencesAll [] nodes)
          = occurrencesAll [] nodes :=
        calc kept [] (occurrencesAll [] nodes)
            = marked marks (occurrencesAll [] nodes) := by rw [kept, hmarks]
          _ = occurrencesAll [] (siftAll marks nodes) :=
              (occurrencesAll_siftAll [] marks nodes).symm
          _ = occurrencesAll [] nodes := by rw [heq]
      exact kept_eq_self_iff.1 hkept
    · have hle := length_renderAll_of_sublist
        (keepFirstStatements_sublist [] (siftAll marks nodes))
      rw [htext] at hle
      omega
  · intro hstanding
    rw [← hmarks, verdicts_of_standing hstanding,
      siftAll_replicate_true nodes h,
      hstatements]

-- ============================================== the second reading

mutual

/-- The texts of a node that are compared as a whole, each in its context: the
sealed ones, and blocks that hold statements only. -/
def Node.units (context : Text) : Node → List (Text × Text)
  | .statement _ => []
  | .rule .. => []
  | .sealed text => [(context, text)]
  | .block heading children =>
    if children.all Node.isStatement then
      [(context, heading ++ '{' :: renderAll children ++ ['}'])]
    else unitsAll (context ++ heading ++ ['\x1f']) children
termination_by structural node => node

/-- The texts of nodes that are compared as a whole, each in its context. -/
def unitsAll (context : Text) : List Node → List (Text × Text)
  | [] => []
  | node :: rest => node.units context ++ unitsAll context rest
termination_by structural nodes => nodes

end

/-- Statements take part in no override. -/
theorem occurrencesAll_statements {nodes : List Node}
    (h : nodes.all Node.isStatement = true) (context : Text) :
    occurrencesAll context nodes = [] := by
  induction nodes with
  | nil => rfl
  | cons node rest ih =>
    rw [List.all_cons, Bool.and_eq_true] at h
    cases node with
    | statement text => exact ih h.2
    | _ => cases h.1

mutual

/-- Rereading a node leaves its declarations where they were. It seals
statements only. -/
theorem Node.declarations_reread (context : Text) (node : Node) :
    (node.reread.occurrences context).filter (!·.isSealed)
      = (node.occurrences context).filter (!·.isSealed) := by
  cases node with
  | statement text => rfl
  | rule selector declarations => rfl
  | «sealed» text => rfl
  | block heading children =>
    rw [Node.reread]
    split
    · next hstatements =>
      rw [Node.occurrences, Node.occurrences,
        occurrencesAll_statements hstatements]
      rfl
    · exact declarationsAll_reread _ children
termination_by structural node

/-- Reading once more changes no declaration. -/
theorem declarationsAll_reread (context : Text) (nodes : List Node) :
    (occurrencesAll context (rereadAll nodes)).filter (!·.isSealed)
      = (occurrencesAll context nodes).filter (!·.isSealed) := by
  cases nodes with
  | nil => rfl
  | cons node rest =>
    rw [rereadAll, occurrencesAll, occurrencesAll, List.filter_append,
      List.filter_append, Node.declarations_reread context node,
      declarationsAll_reread context rest]
termination_by structural nodes

end

mutual

/-- The sealed texts of a reread node are its units. -/
theorem Node.sealed_reread (context : Text) (node : Node) :
    (node.reread.occurrences context).filter (·.isSealed)
      = (node.units context).map fun unit => .sealed unit.1 unit.2 := by
  cases node with
  | statement text => rfl
  | rule selector declarations =>
    rw [Node.reread, Node.occurrences, List.filter_map,
      List.filter_eq_nil_iff.2]
    · rfl
    · simp [Occurrence.isSealed]
  | «sealed» text => rfl
  | block heading children =>
    rw [Node.reread, Node.units]
    split
    · rfl
    · exact sealedAll_reread _ children
termination_by structural node

theorem sealedAll_reread (context : Text) (nodes : List Node) :
    (occurrencesAll context (rereadAll nodes)).filter (·.isSealed)
      = (unitsAll context nodes).map fun unit => .sealed unit.1 unit.2 := by
  cases nodes with
  | nil => rfl
  | cons node rest =>
    rw [rereadAll, occurrencesAll, unitsAll, List.filter_append,
      List.map_append, Node.sealed_reread context node,
      sealedAll_reread context rest]
termination_by structural nodes

end

/-- If nothing is overridden, then after a second reading nothing is but equal
units. -/
theorem standing_reread_iff {nodes : List Node}
    (h : Standing (occurrencesAll [] nodes)) :
    Standing (occurrencesAll [] (rereadAll nodes))
      ↔ (unitsAll [] nodes).Nodup := by
  rw [standing_iff, declarationsAll_reread, sealedAll_reread,
    standing_map_sealed]
  exact and_iff_right (standing_iff.1 h).1

/-- Statements are reread as they are, so the same ones are kept. -/
theorem keepFirstStatements_reread (seen : List Text) (nodes : List Node) :
    keepFirstStatements seen (rereadAll nodes)
      = rereadAll (keepFirstStatements seen nodes) := by
  induction nodes generalizing seen with
  | nil => rfl
  | cons node rest ih =>
    cases node with
    | statement text =>
      rw [rereadAll, Node.reread, keepFirstStatements, keepFirstStatements]
      split
      · exact ih seen
      · rw [ih, rereadAll, Node.reread]
    | rule selector declarations => exact congrArg (_ :: ·) (ih seen)
    | «sealed» text => exact congrArg (_ :: ·) (ih seen)
    | block heading children =>
      have hblock : ¬ ∃ text, (Node.block heading children).reread
          = .statement text := by
        rw [Node.reread]
        split <;> simp
      rw [rereadAll, keepFirstStatements_cons hblock, ih]
      rfl

-- ========================================================= two runs

section Runs

variable (css : Text)

/-- After a run nothing is overridden. -/
theorem standing_dedupe :
    Standing (occurrencesAll [] (Node.dedupe (Node.parse css))) := by
  rw [dedupe_eq (allFilled_parse css), occurrencesAll_keepFirstStatements,
    occurrencesAll_siftAll, ← kept_eq_self_iff]
  exact kept_kept (Occurrence.spares_nil []) _

/-- After a run nothing is empty. -/
theorem allFull_dedupe : AllFull (Node.dedupe (Node.parse css)) := by
  have hsift := AllFilled.siftAll _ (allFilled_parse css)
    (verdicts [] (occurrencesAll [] (Node.parse css)))
  rw [allFull_iff] at hsift
  rw [dedupe_eq (allFilled_parse css), allFull_iff]
  intro node hnode
  exact hsift node (keepFirstStatements_subset _ _ hnode)

/-- After a run no statement is there twice. -/
theorem keepFirstStatements_dedupe :
    keepFirstStatements [] (Node.dedupe (Node.parse css))
      = Node.dedupe (Node.parse css) := by
  have hagain := keepFirstStatements_keepFirstStatements (List.nil_subset [])
    (pruneAll [] .nothing (Node.parse css)).1 []
  rwa [List.append_nil, List.append_nil] at hagain

/-- A second run over a text whose blocks close changes nothing exactly if no
two of the units that the first run left are equal. -/
theorem dedupe_dedupe_iff
    (h : ∀ body ∈ bodiesAll (Node.dedupe (Node.parse css)), Closes body) :
    dedupe (dedupe css) = dedupe css
      ↔ (unitsAll [] (Node.dedupe (Node.parse css))).Nodup := by
  have hread : Node.parse (dedupe css)
      = rereadAll (Node.dedupe (Node.parse css)) :=
    AllRead.parse_renderAll _ (allRead_dedupe css) h
  have htext : dedupe css
      = renderAll (rereadAll (Node.dedupe (Node.parse css))) :=
    (renderAll_rereadAll _).symm
  have hstatements : keepFirstStatements []
      (rereadAll (Node.dedupe (Node.parse css)))
      = rereadAll (Node.dedupe (Node.parse css)) := by
    rw [keepFirstStatements_reread, keepFirstStatements_dedupe]
  calc dedupe (dedupe css) = dedupe css
      ↔ renderAll (Node.dedupe (rereadAll (Node.dedupe (Node.parse css))))
        = renderAll (rereadAll (Node.dedupe (Node.parse css))) := by
        rw [← htext, ← hread]
        rfl
    _ ↔ Standing (occurrencesAll []
          (rereadAll (Node.dedupe (Node.parse css)))) :=
        renderAll_dedupe_eq_iff (AllFull.reread _ (allFull_dedupe css))
          hstatements
    _ ↔ (unitsAll [] (Node.dedupe (Node.parse css))).Nodup :=
        standing_reread_iff (standing_dedupe css)

end Runs

/-- A layer is all that is left in a block, and it is read differently in the
second run, which still changes nothing. -/
theorem dedupe_dedupe_layered :
    let before := "@media x\x7b@layer a;.b\x7bc:1\x7d\x7d".toList
    let behind :=
      "@media x\x7b.b\x7bc:2\x7d\x7d@font-face\x7bd:f(\x7b;\x7d)\x7d".toList
    let css := before ++ behind
    (∀ body ∈ bodiesAll (Node.dedupe (Node.parse css)), Closes body)
    ∧ dedupe css = "@media x\x7b@layer a;\x7d".toList ++ behind
    ∧ dedupe (dedupe css) = dedupe css := by
  intro before behind css
  have hcloses : ∀ body ∈ bodiesAll (Node.dedupe (Node.parse css)),
      Closes body := by
    decide +kernel
  exact ⟨hcloses, by decide +kernel,
    (dedupe_dedupe_iff css hcloses).2 (by decide +kernel)⟩

/-- A literal that is never closed takes the brace behind it in; and of blocks
that keep the same statements the second run drops all but one. -/
theorem second_dedupe_changes_text :
    let literal := ".a\x7bb:\"".toList
    let both := "@media x\x7b@layer a;.b\x7bc:1\x7d\x7d".toList
    let layer := "@media x\x7b@layer a;\x7d".toList
    let rule := "@media x\x7b.b\x7bc:1\x7d\x7d".toList
    (dedupe literal = literal ++ ['}']
      ∧ dedupe (dedupe literal) = literal ++ ['}', '}'])
    ∧ (dedupe (both ++ both ++ rule) = layer ++ layer ++ rule
      ∧ dedupe (dedupe (both ++ both ++ rule)) = layer ++ rule)
    ∧ ¬ ∀ css, dedupe (dedupe css) = dedupe css := by
  intro literal both layer rule
  have hfirst : dedupe literal = literal ++ ['}'] := by decide +kernel
  have hsecond : dedupe (literal ++ ['}']) = literal ++ ['}', '}'] := by
    decide +kernel
  have hlayers : dedupe (both ++ both ++ rule) = layer ++ layer ++ rule := by
    decide +kernel
  have hlayer : dedupe (layer ++ layer ++ rule) = layer ++ rule := by
    decide +kernel
  rw [hlayers, hfirst]
  refine ⟨⟨rfl, hsecond⟩, ⟨rfl, hlayer⟩, fun h => ?_⟩
  have hagain := h literal
  rw [hfirst, hsecond] at hagain
  exact absurd hagain (by decide +kernel)

end StyleTree.Css
