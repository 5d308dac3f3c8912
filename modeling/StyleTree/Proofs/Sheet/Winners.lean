/-
Assembling a sheet never changes which declaration takes effect. Between the
rules that the walk emits and the text that is assembled lie printing,
collapsing, reading and removing duplicates; between the two ends nothing is
compared but the winners.

The rules of each entry are collapsed to the rendering of a forest
(`Rule.prints_sheetText`), and side by side these are the forest of the sheet
(`prints_forest`). It is well formed, so it is what is read, and what it says
is what the rules say (`occurrencesAll_forest`). From there on it is the matter
of forests alone: removing duplicates keeps winners, and the result is read
back.
-/
import StyleTree.Proofs.Css.Deduped
import StyleTree.Proofs.Css.Printed
import StyleTree.Proofs.Sheet.Emitted

namespace StyleTree

open Css (Prints Node Occurrence Place collapse renderAll occurrencesAll
  winner)

-- ==================================================== what rules say

/-- The headings around a rule in the output, a unit separator behind each. -/
def Rule.context (rule : Rule) : Text :=
  match rule.guard with
  | none => []
  | some query => collapse query.text ++ ['\x1f']

/-- The declarations of a rule, each of its texts collapsed. -/
def Rule.occurrences (rule : Rule) : List Occurrence :=
  rule.declarations.map fun d =>
    .declaration rule.context (collapse rule.selector) (collapse d.spelling)

/-- What is left of a rule says what the rule says. -/
theorem Rule.occurrences_node (rule : Rule) {context : Text}
    (h : rule.context = context) :
    rule.node.occurrences context = rule.occurrences := by
  rw [Rule.node, Node.occurrences, Rule.occurrences, List.map_map, h]
  rfl

/-- What is left of a block says what its rules say. -/
theorem Block.occurrences_node {block : Block} (h : block.Gathered) :
    block.node.occurrences [] = block.rules.flatMap Rule.occurrences := by
  cases block with
  | rule r =>
    have hcontext : r.context = [] := by
      rw [Rule.context, show r.guard = none from h]
    rw [Block.node, Rule.occurrences_node r hcontext]
    simp [Block.rules]
  | guarded query rs =>
    rw [Block.node, Node.occurrences, Block.rules]
    have hcontext : ∀ r ∈ rs,
        r.context = [] ++ collapse query.text ++ ['\x1f'] := by
      intro r hr
      rw [Rule.context, h.2 r hr]
      rfl
    clear h
    induction rs with
    | nil => rfl
    | cons r rest ih =>
      obtain ⟨hr, hrest⟩ := List.forall_mem_cons.1 hcontext
      rw [List.map_cons, occurrencesAll, Rule.occurrences_node r hr, ih hrest,
        List.flatMap_cons]

theorem occurrencesAll_blocks (rules : List Rule) :
    occurrencesAll [] ((Block.ofRules rules).map Block.node)
      = rules.flatMap Rule.occurrences := by
  have hblocks (blocks : List Block) (h : ∀ b ∈ blocks, b.Gathered) :
      occurrencesAll [] (blocks.map Block.node)
        = (blocks.flatMap Block.rules).flatMap Rule.occurrences := by
    induction blocks with
    | nil => rfl
    | cons block rest ih =>
      obtain ⟨hblock, hrest⟩ := List.forall_mem_cons.1 h
      rw [List.map_cons, occurrencesAll, Block.occurrences_node hblock,
        ih hrest, List.flatMap_cons, List.flatMap_append]
  rw [hblocks _ (Block.gathered_ofRules rules), Block.flatMap_rules_ofRules]

-- ================================================= the forest of a sheet

namespace Sheet

/-- The nodes that an entry comes to. -/
def nodesOfEntry (entry : Text × Style) : List Node :=
  (Block.ofRules (rulesOfEntry entry)).map Block.node

/-- The nodes that a sheet comes to. -/
def forest (sheet : Sheet) : List Node := sheet.flatMap nodesOfEntry

variable {sheet : Sheet}

/-- The nodes of a sheet say what its rules say. -/
theorem occurrencesAll_forest (sheet : Sheet) :
    occurrencesAll [] (forest sheet)
      = (rules sheet).flatMap Rule.occurrences := by
  induction sheet with
  | nil => rfl
  | cons entry rest ih =>
    rw [forest, List.flatMap_cons, Css.occurrencesAll_append, rules,
      List.flatMap_cons, List.flatMap_append, nodesOfEntry,
      occurrencesAll_blocks]
    exact congrArg _ ih

/-- The text of an entry is collapsed to the text of its nodes. -/
theorem prints_entry (hclosed : ∀ rule ∈ rules sheet, rule.IsClosed)
    {entry : Text × Style} (hentry : entry ∈ sheet) :
    Prints (Rule.sheetText (rulesOfEntry entry))
      (renderAll (nodesOfEntry entry)) := by
  refine Rule.prints_sheetText fun rule hrule => ?_
  exact hclosed rule (List.mem_flatMap.2 ⟨entry, hentry, hrule⟩)

/-- The text of the nodes is put together entry by entry. -/
theorem renderAll_forest (sheet : Sheet) :
    renderAll (forest sheet)
      = sheet.flatMap fun entry => renderAll (nodesOfEntry entry) := by
  induction sheet with
  | nil => rfl
  | cons entry rest ih =>
    rw [forest, List.flatMap_cons, Css.renderAll_append, List.flatMap_cons]
    exact congrArg _ ih

/-- Leaving out what is empty leaves out nothing. -/
theorem flatMap_filter {α : Type} {p : α → Bool} {f : α → Text}
    {items : List α} (h : ∀ item ∈ items, p item = false → f item = []) :
    (items.filter p).flatMap f = items.flatMap f := by
  induction items with
  | nil => rfl
  | cons item rest ih =>
    obtain ⟨hitem, hrest⟩ := List.forall_mem_cons.1 h
    rw [List.flatMap_cons, ← ih hrest]
    cases hp : p item with
    | true => rw [List.filter_cons_of_pos hp, List.flatMap_cons]
    | false =>
      rw [List.filter_cons_of_neg (by simp [hp]), hitem hp, List.nil_append]

/-- The text of a sheet is collapsed to its forest. Entries without a text are
left out of the one and have no part in the other. -/
theorem prints_forest (hclosed : ∀ rule ∈ rules sheet, rule.IsClosed) :
    Prints
      (blankLine.intercalate
        ((sheet.map fun entry => Rule.sheetText (rulesOfEntry entry)).filter
          (!·.isEmpty)))
      (renderAll (forest sheet)) := by
  have hempty : ∀ entry ∈ sheet,
      (!(Rule.sheetText (rulesOfEntry entry)).isEmpty) = false →
        renderAll (nodesOfEntry entry) = [] := by
    intro entry hentry htext
    have hprints := prints_entry hclosed hentry
    rw [Bool.not_eq_false', List.isEmpty_iff] at htext
    rw [htext] at hprints
    exact hprints.collapse_eq.symm
  rw [renderAll_forest, ← flatMap_filter hempty, List.filter_map]
  refine Css.prints_intercalate (fun entry hentry => ?_) (by decide)
  exact prints_entry hclosed (List.mem_of_mem_filter hentry)

/-- The nodes of a sheet of closed texts are read back. -/
theorem wellFormed_forest (hclosed : ∀ rule ∈ rules sheet, rule.IsClosed)
    (hplain : ∀ rule ∈ rules sheet, rule.selector.head? ≠ some '@') :
    ∀ node ∈ forest sheet, node.WellFormed := by
  intro node hnode
  obtain ⟨entry, hentry, hnode⟩ := List.mem_flatMap.1 hnode
  obtain ⟨block, hblock, rfl⟩ := List.mem_map.1 hnode
  refine (Block.braced_node (Block.gathered_ofRules _ block hblock)
    fun rule hrule => ?_).wellFormed
  have hmem : rule ∈ rules sheet := List.mem_flatMap.2
    ⟨entry, hentry, Block.mem_of_mem_rules hblock hrule⟩
  obtain ⟨hne, htrim⟩ := of_mem_rules hmem
  refine ⟨hclosed rule hmem, hne, ?_⟩
  unfold Css.isAtRule
  rw [htrim]
  exact beq_eq_false_iff_ne.2 (hplain rule hmem)

-- ========================================================== winners

/-- Assembling a sheet keeps, for every at-rule, selector and property, the
declaration that takes effect. -/
theorem assemble_keeps_winners (sheet : Sheet)
    (hclosed : ∀ rule ∈ rules sheet, rule.IsClosed)
    (hplain : ∀ rule ∈ rules sheet, rule.selector.head? ≠ some '@') :
    ∃ css, assemble .default sheet = .ok css
      ∧ ∀ place, winner place (occurrencesAll [] (Node.parse css))
        = winner place ((rules sheet).flatMap Rule.occurrences) := by
  have hwellFormed := wellFormed_forest hclosed hplain
  refine ⟨_, assemble_default sheet, fun place => ?_⟩
  rw [(prints_forest hclosed).collapse_eq, Css.parse_dedupe hwellFormed,
    Css.winner_dedupe (Css.allFilled_of_wellFormed hwellFormed),
    occurrencesAll_forest]

/-- A class with an important declaration, a state and a condition, and its
selector once more. -/
def buttons : Sheet := [
  (".btn".toList, [
    ("color".toList, .text "red !important".toList),
    ("&:hover".toList, .object [("color".toList, .text "blue".toList)]),
    ("@media (width > 40rem)".toList,
      .object [("color".toList, .text "navy".toList)])]),
  (" .btn".toList, [("color".toList, .text "gold".toList)])]

theorem assemble_keeps_winners_buttons :
    (∀ rule ∈ rules buttons, rule.IsClosed)
      ∧ (∀ rule ∈ rules buttons, rule.selector.head? ≠ some '@')
      ∧ ∃ css, assemble .default buttons = .ok css
        ∧ ∀ place, winner place (occurrencesAll [] (Node.parse css))
          = winner place ((rules buttons).flatMap Rule.occurrences) := by
  have hclosed : ∀ rule ∈ rules buttons, rule.IsClosed := by decide +kernel
  have hplain : ∀ rule ∈ rules buttons, rule.selector.head? ≠ some '@' := by
    decide +kernel
  exact ⟨hclosed, hplain, assemble_keeps_winners buttons hclosed hplain⟩

end Sheet

-- ============================================ properties as written

/-- A declaration in this context and of this selector, with exactly this text
in front of its first colon. -/
def Css.Occurrence.isSpelled (context selector property : Text) :
    Occurrence → Bool
  | .declaration c s text =>
    c == context && s == selector && text.takeWhile (· != ':') == property
  | .sealed .. => false

/-- Two properties with a colon inside of a literal that differ in a blank in
front of it. -/
def Sheet.quotedProperties : Sheet := [
  (".x".toList, [
    ("\"a :b\"".toList, .text "1".toList),
    ("\"a:b\"".toList, .text "2".toList)])]

/-- With the blanks around it, the text in front of the first colon has a
winner among the rules that is missing from the assembled text. -/
theorem Sheet.winner_lost_with_untrimmed_property :
    (∀ rule ∈ rules quotedProperties,
        rule.IsClosed ∧ rule.selector.head? ≠ some '@')
      ∧ ∃ css, assemble .default quotedProperties = .ok css
        ∧ Css.effective (Occurrence.isSpelled [] ".x".toList "\"a ".toList)
            (occurrencesAll [] (Node.parse css)) = none
        ∧ Css.effective (Occurrence.isSpelled [] ".x".toList "\"a ".toList)
            ((rules quotedProperties).flatMap Rule.occurrences)
          = some (.declaration [] ".x".toList "\"a :b\":1".toList) :=
  ⟨by decide +kernel, ".x\x7b\"a:b\":2\x7d".toList, by decide +kernel,
    by decide +kernel, by decide +kernel⟩

end StyleTree
