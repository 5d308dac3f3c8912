/-
What is read of printed rules: one rule for each rule without a condition, and
one at-rule for each maximal run of rules under one condition
(`Rule.parse_collapse_sheetText`). The runs are those of `List.splitBy`, which
knows nothing of printing. That the printer forms the same ones is the matter
of the first half: its blocks make up the rules again, each of them has one
condition, and neighbours have no condition in common
(`Block.isChain_ofRules`), and there is only one way to cut a list like that.
The second half is in place already: the blocks are collapsed to the rendering
of their nodes, and these are legible.
-/
import Mathlib.Data.List.SplitBy
import StyleTree.Proofs.Css.Printed

namespace StyleTree

open Css (Node collapse renderAll)

-- ============================================================== runs

namespace Rule

/-- Whether two neighbours stand under one condition. -/
def sharesGuard (a b : Rule) : Bool :=
  a.guard.isSome && decide (a.guard = b.guard)

/-- The rules cut into maximal runs under one condition. A rule without a
condition is a run of its own. -/
def runs (rules : List Rule) : List (List Rule) := rules.splitBy sharesGuard

/-- What is left of a run when it is collapsed. -/
def nodesOfRun : List Rule → List Node
  | [] => []
  | rule :: others =>
    match rule.guard with
    | none => (rule :: others).map Rule.node
    | some query =>
      [.block (collapse query.text) ((rule :: others).map Rule.node)]

end Rule

namespace Block

/-- The condition of a block. -/
def guard : Block → Option Query
  | rule _ => none
  | guarded query _ => some query

/-- The second block does not go on with the condition of the first. -/
def Apart (a b : Block) : Prop := ∀ query ∈ a.guard, b.guard ≠ some query

theorem Gathered.rules_ne_nil {block : Block} (h : block.Gathered) :
    block.rules ≠ [] := by
  cases block with
  | rule r => exact List.cons_ne_nil _ _
  | guarded query rs => exact h.1

theorem Gathered.guard_eq {block : Block} (h : block.Gathered) {r : Rule}
    (hr : r ∈ block.rules) : r.guard = block.guard := by
  cases block with
  | rule first =>
    rw [List.mem_singleton.1 hr]
    exact h
  | guarded query rs => exact h.2 r hr

/-- Rules side by side in a run share their condition. -/
theorem Gathered.isChain_rules {block : Block} (h : block.Gathered) :
    block.rules.IsChain fun a b => Rule.sharesGuard a b := by
  cases block with
  | rule r => exact List.isChain_singleton r
  | guarded query rs =>
    refine List.Pairwise.isChain (List.pairwise_of_forall_mem_list ?_)
    intro a ha b hb
    simp [Rule.sharesGuard, h.2 a ha, h.2 b hb]

/-- Neighbouring blocks are cut where they meet. -/
theorem Gathered.sharesGuard_eq_false {a b : Block} (ha : a.Gathered)
    (hb : b.Gathered) (hapart : Apart a b) :
    ∃ hne hne', Rule.sharesGuard (a.rules.getLast hne) (b.rules.head hne')
      = false := by
  refine ⟨ha.rules_ne_nil, hb.rules_ne_nil, ?_⟩
  unfold Rule.sharesGuard
  rw [ha.guard_eq (List.getLast_mem _), hb.guard_eq (List.head_mem _)]
  cases hguard : a.guard with
  | none => rfl
  | some query => simp [Ne.symm (hapart query hguard)]

/-- A run is read as the node of its block. -/
theorem Gathered.nodesOfRun_rules {block : Block} (h : block.Gathered) :
    Rule.nodesOfRun block.rules = [block.node] := by
  cases block with
  | rule r =>
    have hguard : r.guard = none := h
    simp only [rules, Rule.nodesOfRun, hguard]
    rfl
  | guarded query rs =>
    obtain ⟨hne, hguard⟩ := h
    obtain ⟨first, others, rfl⟩ := List.exists_cons_of_ne_nil hne
    simp only [rules, Rule.nodesOfRun, hguard first (List.mem_cons_self ..)]
    rfl

/-- A rule that joins the first block or opens one of its own leaves neighbours
apart. -/
theorem isChain_cons {r : Rule} {blocks : List Block}
    (h : blocks.IsChain Apart) : (cons r blocks).IsChain Apart := by
  unfold cons
  split
  · next hguard =>
    refine List.isChain_cons.2 ⟨fun _ _ query hquery => ?_, h⟩
    cases hquery
  · next query hguard =>
    split
    · next next rs rest =>
      -- joining the first block leaves it as far from the next as it was
      obtain ⟨hnext, hrest⟩ := List.isChain_cons.1 h
      split
      · next heq =>
        subst heq
        exact List.isChain_cons.2 ⟨hnext, hrest⟩
      · next hne =>
        refine List.isChain_cons.2 ⟨fun block hblock other hother => ?_, h⟩
        cases hblock
        cases hother
        exact fun heq => hne (Option.some.inj heq).symm
    · next hnot =>
      refine List.isChain_cons.2 ⟨fun block hblock other hother => ?_, h⟩
      obtain ⟨rest, rfl⟩ := List.head?_eq_some_iff.1 hblock
      cases block with
      | rule _ => exact nofun
      | guarded next rs => exact absurd rfl (hnot next rs rest)

/-- No two blocks side by side could have been one. -/
theorem isChain_ofRules (rs : List Rule) : (ofRules rs).IsChain Apart := by
  induction rs with
  | nil => exact List.isChain_nil
  | cons r rest ih => exact isChain_cons ih

/-- The runs of rules are the blocks that are printed. -/
theorem runs_eq_map_rules (rs : List Rule) :
    Rule.runs rs = (ofRules rs).map rules := by
  have hgathered := gathered_ofRules rs
  refine List.splitBy_eq_iff.2 ⟨?_, ?_, ?_, ?_⟩
  · rw [← List.flatMap_def, flatMap_rules_ofRules]
  · intro hmem
    obtain ⟨block, hblock, hnil⟩ := List.mem_map.1 hmem
    exact (hgathered block hblock).rules_ne_nil hnil
  · intro run hrun
    obtain ⟨block, hblock, rfl⟩ := List.mem_map.1 hrun
    exact (hgathered block hblock).isChain_rules
  · refine (List.isChain_map _).2 ((isChain_ofRules rs).imp_of_mem_imp ?_)
    intro a b ha hb hapart
    exact (hgathered a ha).sharesGuard_eq_false (hgathered b hb) hapart

end Block

-- ====================================================== what is read

/-- What is read of the blocks is what is left of the runs. -/
theorem Block.map_node_ofRules (rs : List Rule) :
    (ofRules rs).map node = (Rule.runs rs).flatMap Rule.nodesOfRun := by
  rw [runs_eq_map_rules, List.flatMap_map, ← List.flatMap_pure_eq_map]
  refine List.flatMap_congr fun block hblock => ?_
  exact (gathered_ofRules rs block hblock).nodesOfRun_rules.symm

/-- The printed rules, collapsed and read: each rule without a condition, and
an at-rule around each maximal run of rules under one condition, in order.
Their texts are the printed ones, each collapsed on its own. -/
theorem Rule.parse_collapse_sheetText {rules : List Rule}
    (hclosed : ∀ r ∈ rules, r.IsClosed)
    (hplain : ∀ r ∈ rules, r.selector.trim.head? ≠ some '@') :
    Node.parse (collapse (Rule.sheetText rules))
      = (Rule.runs rules).flatMap Rule.nodesOfRun := by
  have hlegible : ∀ node ∈ (Block.ofRules rules).map Block.node,
      node.Legible := by
    intro node hnode
    obtain ⟨block, hblock, rfl⟩ := List.mem_map.1 hnode
    refine Block.legible_node (Block.gathered_ofRules rules block hblock)
      fun r hr => ?_
    have hmem := Block.mem_of_mem_rules hblock hr
    refine ⟨hclosed r hmem, beq_eq_false_iff_ne.2 ?_⟩
    rw [← Text.head?_trim]
    exact hplain r hmem
  rw [(Rule.prints_sheetText hclosed).collapse_eq,
    Css.parse_renderAll_of_parse fun node hnode => (hlegible node hnode).parse,
    Block.map_node_ofRules]

/-- Two rules under one condition, a rule without a condition, one under a bare
keyword and one without declarations, with marks inside of literals and of
brackets. -/
def Rule.markedRules : List Rule :=
  let wide : Query := ⟨.media, "(width > 40rem)".toList⟩
  [⟨some wide, ".a > .b".toList, [⟨"content".toList, "\"\x7d  ;\"".toList⟩]⟩,
    ⟨some wide, ".a , .b".toList, [⟨"src".toList, "url(a; b)".toList⟩,
      ⟨"top".toList, "0".toList⟩]⟩,
    ⟨none, "a[title='@\x7b']".toList, [⟨"--x".toList, "1  2".toList⟩]⟩,
    ⟨some ⟨.media, []⟩, ".c".toList, [⟨"top".toList, "1px".toList⟩]⟩,
    ⟨some wide, ".d".toList, []⟩]

theorem Rule.parse_collapse_sheetText_marked :
    (∀ r ∈ markedRules, r.IsClosed)
    ∧ (∀ r ∈ markedRules, r.selector.trim.head? ≠ some '@')
    ∧ Node.parse (collapse (Rule.sheetText markedRules))
      = [.block "@media (width > 40rem)".toList [
          .rule ".a > .b".toList ["content:\"\x7d  ;\"".toList],
          .rule ".a,.b".toList ["src:url(a;b)".toList, "top:0".toList]],
        .rule "a[title='@\x7b']".toList ["--x:1 2".toList],
        .block "@media".toList [.rule ".c".toList ["top:1px".toList]],
        .block "@media (width > 40rem)".toList [.rule ".d".toList []]] := by
  have hclosed : ∀ r ∈ markedRules, r.IsClosed := by decide +kernel
  have hplain : ∀ r ∈ markedRules, r.selector.trim.head? ≠ some '@' := by
    decide +kernel
  exact ⟨hclosed, hplain, parse_collapse_sheetText hclosed hplain⟩

end StyleTree
