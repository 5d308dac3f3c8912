/-
Pruning keeps what nothing later overrides. The pass runs from the last node to
the first and judges each declaration by three lists that all blocks share; the
statement to reach has no lists in it, only the occurrences that stand behind
a declaration in the document.

# The record

The bridge is `record`: the three lists after a stretch of the document are
those of its occurrences, added one by one from the last (`pruneAll_eq`), and
an entry of them is an occurrence further on (`mem_places_record`,
`mem_sealedBlocks_record`). So the judgement of a declaration by the record is
its survival among the occurrences behind it (`judge_record`). It does not
matter that a normal declaration leaves its place in the record when an
important one has overridden it already: either entry alone overrides what
stands before.

# The sieve

What becomes of the nodes is said by `siftAll`: the marks of their occurrences
decide which declarations and sealed blocks stay, and a rule or block goes when
nothing is left in it.
-/
import StyleTree.Css.Parse
import StyleTree.Proofs.Css.Cascade
import StyleTree.Proofs.Text.Trim

namespace StyleTree.Css

-- ========================================================= the record

section Record

variable {context selector text property value : Text}
  {occurrences later : List Occurrence} {place : Place} {further : Later}

/-- The places of the important declarations further on, or of the others. -/
def Later.places (further : Later) : Bool → List Place
  | true => further.important
  | false => further.normal

/-- A text without a colon is kept and leaves no trace. -/
theorem Later.judge_of_eq_none (h : splitDeclaration? text = none) :
    further.judge context selector text = (true, further) := by
  rw [judge, h]

/-- Any other declaration is looked up by its place, and adds that to the list
of its kind. -/
theorem Later.judge_of_eq_some
    (h : splitDeclaration? text = some (property, value))
    (hplace : place = ⟨context, selector, property⟩) :
    further.judge context selector text
      = if isImportant value then
          (decide (place ∉ further.places true),
            { further with important := place :: further.important })
        else
          (decide (place ∉ further.places false
              ∧ place ∉ further.places true),
            { further with normal := place :: further.normal }) := by
  rw [judge, h, hplace]
  rfl

/-- Adds an occurrence to what stands further on. -/
def Later.add (o : Occurrence) (further : Later) : Later :=
  match o with
  | .declaration context selector text =>
    (further.judge context selector text).2
  | .sealed context text =>
    { further with
      sealedBlocks := (context, text) :: further.sealedBlocks }

/-- What stands further on when these occurrences do. -/
def record (occurrences : List Occurrence) : Later :=
  occurrences.foldr Later.add .nothing

/-- What stands further on is added to from behind. -/
theorem record_cons (o : Occurrence) (rest : List Occurrence) :
    record (o :: rest) = (record rest).add o := rfl

/-- It is a declaration of the place, important or not as asked. -/
def Occurrence.Takes (important : Bool) (place : Place) (o : Occurrence) :
    Prop :=
  o.place? = some place ∧ o.important = important

/-- An occurrence adds its own place, to the list of its kind. -/
theorem mem_places_add (o : Occurrence) (important : Bool) :
    place ∈ (further.add o).places important
      ↔ o.Takes important place ∨ place ∈ further.places important := by
  cases o with
  | «sealed» context text =>
    cases important <;>
      simp [Later.add, Later.places, Occurrence.Takes, Occurrence.place?]
  | declaration context selector text =>
    cases hsplit : splitDeclaration? text with
    | none =>
      simp [Later.add, Later.judge_of_eq_none hsplit, Occurrence.Takes,
        Occurrence.place?_of_eq_none hsplit]
    | some halves =>
      obtain ⟨property, value⟩ := halves
      simp only [Later.add, Later.judge_of_eq_some hsplit rfl,
        Occurrence.Takes, Occurrence.place?_of_eq_some hsplit,
        Occurrence.important_of_eq_some hsplit]
      cases isImportant value <;> cases important <;>
        simp [Later.places, eq_comm]

/-- No declaration is taken for a sealed block. -/
theorem sealedBlocks_add_declaration :
    (further.add (.declaration context selector text)).sealedBlocks
      = further.sealedBlocks := by
  cases hsplit : splitDeclaration? text with
  | none => rw [Later.add, Later.judge_of_eq_none hsplit]
  | some halves =>
    rw [Later.add, Later.judge_of_eq_some hsplit rfl]
    split <;> rfl

/-- A place is in a list exactly if a declaration further on has it. -/
theorem mem_places_record (important : Bool) :
    place ∈ (record occurrences).places important
      ↔ ∃ o ∈ occurrences, o.Takes important place := by
  induction occurrences with
  | nil => cases important <;> simp [record, Later.nothing, Later.places]
  | cons o rest ih =>
    rw [record_cons, mem_places_add, ih]
    simp only [List.mem_cons, or_and_right, exists_or, exists_eq_left]

/-- A sealed block is in the list exactly if an equal one stands further on. -/
theorem mem_sealedBlocks_record :
    (context, text) ∈ (record occurrences).sealedBlocks
      ↔ .sealed context text ∈ occurrences := by
  induction occurrences with
  | nil => simp [record, Later.nothing]
  | cons o rest ih =>
    rw [record_cons, List.mem_cons, ← ih]
    cases o with
    | «sealed» context' text' => simp [Later.add]
    | declaration context' selector' text' =>
      rw [sealedBlocks_add_declaration]
      simp

/-- A declaration is judged as it fares among the occurrences behind it. -/
theorem judge_record :
    ((record later).judge context selector text).1
      = decide ((Occurrence.declaration context selector text).Survives
          later) := by
  generalize ho : Occurrence.declaration context selector text = o
  have hsurvives : o.Survives later ↔ ':' ∉ text
      ∨ (o.important = true
        ∧ ∀ l ∈ later, l.place? = o.place? → l.important = false)
      ∨ (o.important = false ∧ ∀ l ∈ later, l.place? ≠ o.place?) := by
    rw [← ho]
    exact Iff.rfl
  rw [← splitDeclaration?_eq_none_iff] at hsurvives
  cases hsplit : splitDeclaration? text with
  | none =>
    rw [Later.judge_of_eq_none hsplit]
    exact (decide_eq_true (hsurvives.2 (.inl hsplit))).symm
  | some halves =>
    obtain ⟨property, value⟩ := halves
    generalize hkey : (⟨context, selector, property⟩ : Place) = place
    have hplace : o.place? = some place := by
      rw [← ho, ← hkey, Occurrence.place?_of_eq_some hsplit]
    have hvalue : o.important = isImportant value := by
      rw [← ho, Occurrence.important_of_eq_some hsplit]
    -- the list is asked for the place, and the definition for its occurrences
    rw [hsplit, hplace, hvalue] at hsurvives
    rw [Later.judge_of_eq_some hsplit hkey.symm]
    cases himportant : isImportant value with
    | true =>
      rw [if_pos rfl, decide_eq_decide, hsurvives, mem_places_record]
      simp [himportant, Occurrence.Takes]
    | false =>
      rw [if_neg Bool.false_ne_true, decide_eq_decide, hsurvives,
        mem_places_record, mem_places_record, himportant]
      simp only [reduceCtorEq, false_and, true_and, false_or]
      refine ⟨fun h l hl hlplace => ?_, fun h => ⟨?_, ?_⟩⟩
      · cases hlimportant : l.important with
        | true => exact h.2 ⟨l, hl, hlplace, hlimportant⟩
        | false => exact h.1 ⟨l, hl, hlplace, hlimportant⟩
      · rintro ⟨l, hl, hlplace, -⟩
        exact h l hl hlplace
      · rintro ⟨l, hl, hlplace, -⟩
        exact h l hl hlplace

end Record

-- ========================================================== the sieve

mutual

/-- What stays of a node whose occurrences are marked, as a list that holds it
or not. -/
def Node.sift (marks : List Bool) : Node → List Node
  | .statement text => [.statement text]
  | .rule selector declarations =>
    let kept := marked marks declarations
    if kept.isEmpty then [] else [.rule selector kept]
  | .sealed text => marked marks [.sealed text]
  | .block heading children =>
    let kept := siftAll marks children
    if kept.isEmpty then [] else [.block heading kept]
termination_by structural node => node

/-- What stays of nodes whose occurrences are marked, in order. -/
def siftAll (marks : List Bool) : List Node → List Node
  | [] => []
  | node :: rest =>
    let size := (node.occurrences []).length
    node.sift (marks.take size) ++ siftAll (marks.drop size) rest
termination_by structural nodes => nodes

end

mutual

/-- How much a node says does not depend on where it stands. -/
theorem Node.length_occurrences (c c' : Text) (node : Node) :
    (node.occurrences c).length = (node.occurrences c').length := by
  cases node with
  | statement text => rfl
  | rule selector declarations => simp [Node.occurrences]
  | «sealed» text => rfl
  | block heading children => exact length_occurrencesAll _ _ children
termination_by structural node

/-- The same of nodes, so marks can be handed out without a context. -/
theorem length_occurrencesAll (c c' : Text) (nodes : List Node) :
    (occurrencesAll c nodes).length = (occurrencesAll c' nodes).length := by
  cases nodes with
  | nil => rfl
  | cons node rest =>
    rw [occurrencesAll, occurrencesAll, List.length_append,
      List.length_append, Node.length_occurrences c c' node,
      length_occurrencesAll c c' rest]
termination_by structural nodes

end

mutual

/-- What stays says what was marked, and nothing else. -/
theorem Node.occurrences_sift (c : Text) (marks : List Bool) (node : Node) :
    occurrencesAll c (node.sift marks)
      = marked marks (node.occurrences c) := by
  cases node with
  | statement text => simp [Node.sift, occurrencesAll, Node.occurrences]
  | rule selector declarations =>
    rw [Node.sift, Node.occurrences, marked_map]
    cases hkept : marked marks declarations with
    | nil => rfl
    | cons first others =>
      simp [occurrencesAll, Node.occurrences]
  | «sealed» text =>
    cases marks with
    | nil => rfl
    | cons mark marks =>
      cases mark <;> simp [Node.sift, occurrencesAll, Node.occurrences]
  | block heading children =>
    have hchildren :=
      occurrencesAll_siftAll (c ++ heading ++ ['\x1f']) marks children
    rw [Node.sift, Node.occurrences, ← hchildren]
    cases hkept : siftAll marks children with
    | nil => rfl
    | cons first others =>
      simp [occurrencesAll, Node.occurrences]
termination_by structural node

/-- What stays of nodes says what was marked: each node takes as many marks as
it says things. -/
theorem occurrencesAll_siftAll (c : Text) (marks : List Bool)
    (nodes : List Node) :
    occurrencesAll c (siftAll marks nodes)
      = marked marks (occurrencesAll c nodes) := by
  cases nodes with
  | nil => simp [siftAll, occurrencesAll]
  | cons node rest =>
    rw [siftAll, occurrencesAll_append, Node.occurrences_sift,
      occurrencesAll_siftAll, occurrencesAll, marked_append,
      Node.length_occurrences [] c]
termination_by structural nodes

end

-- ============================================================ pruning

mutual

/-- No text is empty that stands for a whole node. -/
def Node.IsFilled : Node → Prop
  | .statement text => text ≠ []
  | .rule .. => True
  | .sealed text => text ≠ []
  | .block _ children => AllFilled children
termination_by structural node => node

/-- No text in the nodes is empty that stands for a whole node. -/
def AllFilled : List Node → Prop
  | [] => True
  | node :: rest => node.IsFilled ∧ AllFilled rest
termination_by structural nodes => nodes

end

/-- Reading gives no node without a text. -/
theorem allFilled_parse (text : Text) : AllFilled (Node.parse text) := by
  fun_induction Node.parse text with
  | case1 => trivial
  | case2 _ _ _ ih => exact ih
  | case3 text first rest htrim =>
    refine ⟨fun hnil => ?_, trivial⟩
    have hfirst : isBlank first = true :=
      Text.trimEnd_eq_nil_iff.1 hnil first (List.mem_cons_self ..)
    have hhead : isBlank first = false :=
      Text.isBlank_head?_trimStart first (by rw [htrim]; rfl)
    rw [hhead] at hfirst
    exact Bool.false_ne_true hfirst
  | case4 _ _ _ _ _ _ _ _ ih => exact ⟨by simp [Node.IsFilled], ih⟩
  | case5 _ _ _ _ _ _ _ _ _ _ heading body node ihBody ihRest =>
    refine ⟨?_, ihRest⟩
    show Node.IsFilled (if _ then _ else _)
    split
    · exact ihBody
    · unfold Node.ofFlatBlock
      split
      · simp [Node.IsFilled]
      · trivial

/-- The declarations of one rule, judged from the last to the first. -/
theorem pruneDeclarations_eq (context selector : Text)
    (later : List Occurrence) (declarations : List Text) :
    pruneDeclarations context selector (record later) declarations
      = (marked
          (verdicts later
            (declarations.map (.declaration context selector)))
          declarations,
        record (declarations.map (.declaration context selector)
          ++ later)) := by
  induction declarations with
  | nil => rfl
  | cons declaration rest ih =>
    rw [pruneDeclarations, ih]
    simp only [List.map_cons, verdicts, marked_cons, judge_record,
      decide_eq_true_eq]
    rfl

mutual

/-- One node. That a text is not empty matters for statements and sealed blocks
only, which are dropped if they are. -/
theorem Node.prune_eq (context : Text) (later : List Occurrence)
    (node : Node) (h : node.IsFilled) :
    node.prune context (record later)
      = (node.sift (verdicts later (node.occurrences context)),
        record (node.occurrences context ++ later)) := by
  cases node with
  | statement text =>
    have hkeep : (Node.statement text).unlessEmpty = [.statement text] :=
      if_neg (mt List.isEmpty_iff.1 h)
    rw [Node.prune, hkeep]
    rfl
  | rule selector declarations =>
    rw [Node.prune, pruneDeclarations_eq]
    rfl
  | «sealed» text =>
    -- a sealed block stays if no equal one was seen behind it
    have hdrop : (context, text) ∈ (record later).sealedBlocks
        ↔ ¬ (Occurrence.sealed context text).Survives later :=
      mem_sealedBlocks_record.trans not_not.symm
    have hkeep : (Node.sealed text).unlessEmpty = [.sealed text] :=
      if_neg (mt List.isEmpty_iff.1 h)
    rw [Node.prune, hkeep, Node.occurrences, verdicts, Node.sift, marked_cons]
    by_cases hsurvives : (Occurrence.sealed context text).Survives later
    · rw [if_neg fun hmem => hdrop.1 hmem hsurvives]
      simp [hsurvives, verdicts, record_cons, Later.add]
    · rw [if_pos (hdrop.2 hsurvives)]
      simp [hsurvives, verdicts, record_cons, Later.add]
  | block heading children =>
    rw [Node.prune, pruneAll_eq _ later children h]
    rfl
termination_by structural node

/-- Pruning sifts by what survives, if the record is that of the occurrences
behind the nodes. -/
theorem pruneAll_eq (context : Text) (later : List Occurrence)
    (nodes : List Node) (h : AllFilled nodes) :
    pruneAll context (record later) nodes
      = (siftAll (verdicts later (occurrencesAll context nodes)) nodes,
        record (occurrencesAll context nodes ++ later)) := by
  cases nodes with
  | nil => rfl
  | cons node rest =>
    have hsize : (node.occurrences []).length
        = (verdicts (occurrencesAll context rest ++ later)
            (node.occurrences context)).length := by
      rw [length_verdicts, Node.length_occurrences]
    have hrest := pruneAll_eq context later rest h.2
    have hnode := Node.prune_eq context
      (occurrencesAll context rest ++ later) node h.1
    rw [pruneAll, hrest]
    simp only [hnode, occurrencesAll, verdicts_append, siftAll, hsize,
      List.take_left, List.drop_left, List.append_assoc]
termination_by structural nodes

end

/-- Pruning a stylesheet keeps exactly what nothing later overrides, in place,
and with it every winner. What makes a declaration important is the end of its
value. -/
theorem prune_keeps_survivors (css : Text) :
    let nodes := Node.parse css
    let occurrences := occurrencesAll [] nodes
    let kept := (pruneAll [] .nothing nodes).1
    kept = siftAll (verdicts [] occurrences) nodes
      ∧ occurrencesAll [] kept
        = marked (verdicts [] occurrences) occurrences
      ∧ (∀ place, winner place (occurrencesAll [] kept)
        = winner place occurrences)
      ∧ ∀ value, isImportant value = true ↔ EndsImportant value := by
  intro nodes occurrences kept
  have hkept : kept = siftAll (verdicts [] occurrences) nodes :=
    congrArg Prod.fst (pruneAll_eq [] [] nodes (allFilled_parse css))
  have hmarked : occurrencesAll [] kept
      = marked (verdicts [] occurrences) occurrences := by
    rw [hkept, occurrencesAll_siftAll]
  refine ⟨hkept, hmarked, fun place => ?_, fun _ => isImportant_iff⟩
  rw [hmarked, winner_marked_verdicts]

end StyleTree.Css
