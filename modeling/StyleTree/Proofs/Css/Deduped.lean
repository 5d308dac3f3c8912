/-
Removing duplicates from a well-formed forest. What stays of a node is built
from parts of it, so the forest stays well formed and is read back from the
text that is written in the end (`parse_dedupe`). And no winner changes
(`winner_dedupe`): pruning keeps all of them, and the statements that go
afterwards declare nothing.
-/
import StyleTree.Css.Dedupe
import StyleTree.Proofs.Css.Override
import StyleTree.Proofs.Css.RoundTrip

namespace StyleTree.Css

-- ================================================== still well formed

mutual

/-- Whatever is sifted out, blocks that hold rules still hold rules, or are
gone. -/
theorem Node.Braced.sift (node : Node) (h : node.Braced) (marks : List Bool) :
    AllBraced (node.sift marks) := by
  cases node with
  | statement text => exact absurd h id
  | rule selector declarations =>
    obtain ⟨hselector, hplain, -, hdeclarations⟩ := h
    rw [Node.sift]
    split
    · trivial
    · next hne =>
      refine ⟨⟨hselector, hplain, by simpa using hne, ?_⟩, trivial⟩
      exact fun text htext =>
        hdeclarations text (marked_subset marks declarations htext)
  | «sealed» text =>
    rw [Node.sift, allBraced_iff]
    intro node hnode
    have hmem := marked_subset marks [Node.sealed text] hnode
    rw [List.mem_singleton.1 hmem]
    exact h
  | block heading children =>
    obtain ⟨hheading, hatRule, -, hchildren⟩ := h
    rw [Node.sift]
    split
    · exact trivial
    · next hne =>
      exact ⟨⟨hheading, hatRule, by simpa using hne,
        AllBraced.siftAll children hchildren marks⟩, trivial⟩
termination_by structural node

/-- The same of nodes, each with its share of the marks. -/
theorem AllBraced.siftAll (nodes : List Node) (h : AllBraced nodes)
    (marks : List Bool) : AllBraced (siftAll marks nodes) := by
  cases nodes with
  | nil => trivial
  | cons node rest =>
    rw [Css.siftAll, allBraced_iff, List.forall_mem_append, ← allBraced_iff,
      ← allBraced_iff]
    exact ⟨Node.Braced.sift node h.1 _, AllBraced.siftAll rest h.2 _⟩
termination_by structural nodes

end

variable {nodes : List Node}

/-- Sifting a forest leaves a forest. -/
theorem wellFormed_siftAll (h : ∀ node ∈ nodes, node.WellFormed)
    (marks : List Bool) : ∀ node ∈ siftAll marks nodes, node.WellFormed := by
  induction nodes generalizing marks with
  | nil => exact fun _ hnode => nomatch hnode
  | cons node rest ih =>
    obtain ⟨hnode, hrest⟩ := List.forall_mem_cons.1 h
    rw [siftAll, List.forall_mem_append]
    refine ⟨?_, ih hrest _⟩
    have hbraced (hbraced : node.Braced) (marks : List Bool) :
        ∀ kept ∈ node.sift marks, kept.WellFormed := fun kept hkept =>
      (allBraced_iff.1 (Node.Braced.sift node hbraced marks) kept
        hkept).wellFormed
    cases node with
    | statement text =>
      intro kept hkept
      rw [List.mem_singleton.1 hkept]
      exact hnode
    | rule selector declarations => exact hbraced hnode _
    | «sealed» text => exact hbraced hnode _
    | block heading children => exact hbraced hnode _

/-- Only statements are dropped. -/
theorem keepFirstStatements_cons {node : Node}
    (h : ¬ ∃ text, node = .statement text) (seen : List Text)
    (rest : List Node) :
    keepFirstStatements seen (node :: rest)
      = node :: keepFirstStatements seen rest := by
  rw [keepFirstStatements]
  intro text htext
  exact h ⟨text, htext⟩

/-- What is left of some nodes was among them. -/
theorem keepFirstStatements_subset (seen : List Text) (nodes : List Node) :
    keepFirstStatements seen nodes ⊆ nodes := by
  induction nodes generalizing seen with
  | nil => exact List.Subset.refl []
  | cons node rest ih =>
    by_cases hstatement : ∃ text, node = .statement text
    · obtain ⟨text, rfl⟩ := hstatement
      rw [keepFirstStatements]
      split
      · exact List.subset_cons_of_subset _ (ih seen)
      · exact List.cons_subset_cons _ (ih _)
    · rw [keepFirstStatements_cons hstatement]
      exact List.cons_subset_cons _ (ih seen)

/-- Statements say nothing that could be overridden. -/
theorem occurrencesAll_keepFirstStatements (context : Text)
    (seen : List Text) (nodes : List Node) :
    occurrencesAll context (keepFirstStatements seen nodes)
      = occurrencesAll context nodes := by
  induction nodes generalizing seen with
  | nil => rfl
  | cons node rest ih =>
    by_cases hstatement : ∃ text, node = .statement text
    · obtain ⟨text, rfl⟩ := hstatement
      rw [keepFirstStatements]
      split
      · exact ih seen
      · exact ih _
    · rw [keepFirstStatements_cons hstatement, occurrencesAll, occurrencesAll,
        ih]

-- ======================================================== as a whole

/-- No text in a forest is empty. -/
theorem allFilled_of_wellFormed (h : ∀ node ∈ nodes, node.WellFormed) :
    AllFilled nodes := by
  rw [← parse_renderAll h]
  exact allFilled_parse _

/-- Removing duplicates is sifting by what survives, and then dropping
statements that were there before. -/
theorem dedupe_eq (h : AllFilled nodes) :
    Node.dedupe nodes = keepFirstStatements []
      (siftAll (verdicts [] (occurrencesAll [] nodes)) nodes) :=
  congrArg (fun pruned : List Node × Later => keepFirstStatements [] pruned.1)
    (pruneAll_eq [] [] nodes h)

/-- Without its duplicates a forest is a forest. -/
theorem wellFormed_dedupe (h : ∀ node ∈ nodes, node.WellFormed) :
    ∀ node ∈ Node.dedupe nodes, node.WellFormed := by
  intro node hnode
  rw [dedupe_eq (allFilled_of_wellFormed h)] at hnode
  exact wellFormed_siftAll h _ node (keepFirstStatements_subset _ _ hnode)

/-- On the text of a forest it is all about the forest, since the text is read
back. -/
theorem dedupe_renderAll (h : ∀ node ∈ nodes, node.WellFormed) :
    dedupe (renderAll nodes) = renderAll (Node.dedupe nodes) := by
  unfold dedupe
  rw [parse_renderAll h]

/-- The text without duplicates is that of the forest without them. -/
theorem parse_dedupe (h : ∀ node ∈ nodes, node.WellFormed) :
    Node.parse (dedupe (renderAll nodes)) = Node.dedupe nodes := by
  rw [dedupe_renderAll h]
  exact parse_renderAll (wellFormed_dedupe h)

/-- Statements say nothing that competes, so winners stay. -/
theorem winner_dedupe (h : AllFilled nodes) (place : Place) :
    winner place (occurrencesAll [] (Node.dedupe nodes))
      = winner place (occurrencesAll [] nodes) := by
  rw [dedupe_eq h, occurrencesAll_keepFirstStatements, occurrencesAll_siftAll,
    winner_marked_verdicts]

example : dedupe ".a\x7bx:1 !important\x7d.a\x7bx:2;x:3\x7d".toList
    = ".a\x7bx:1 !important\x7d.a\x7bx:3\x7d".toList := by
  decide +kernel

end StyleTree.Css
