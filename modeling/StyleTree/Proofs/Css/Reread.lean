/-
Reading once more what was written. Whatever text a forest was read from, it is
made of headings, statements and declarations as reading makes them
(`allRead_parse`), and what stays of it when parts are dropped still is
(`AllRead.siftAll`). So the text of the forest is read as that forest again
(`AllRead.parse_renderAll`), with two reservations.

# Blocks that do not close

A block that is never closed goes on to the end of the text, perhaps inside of
a literal, where the brace that is written for its end closes nothing. And of
two braces that match, one can stand in a declaration that is dropped. `Closes`
is asked of every body for that reason; it is the search for the end of a block
itself, run over the body and its brace.

# Blocks without blocks

An at-rule is read into if there is a brace in its body. When all is dropped
that had one, only statements are left, and the block that was read into is
read as one sealed text instead (`Node.reread`).
-/
import StyleTree.Proofs.Css.Deduped

namespace StyleTree.Css

open Nesting (Along)
open Text (Uncut)

variable {heading body rest text : Text} {declarations : List Text}
  {nodes : List Node}

-- ============================================== bodies that close

/-- The brace behind the body is the one that ends it. -/
def Closes (body : Text) : Prop :=
  splitBlock .outside 0 (body ++ ['}']) = (body, [])

instance (body : Text) : Decidable (Closes body) :=
  inferInstanceAs (Decidable (_ = _))

section Closes

variable {quoting : Quoting} {depth : Nat} {c : Char}

/-- How many blocks are open behind a character. -/
def braceDepth (quoting : Quoting) (depth : Nat) (c : Char) : Nat :=
  if quoting = .outside then
    (if c = '{' then depth + 1 else if c = '}' then depth - 1 else depth)
  else depth

/-- The character ends the block that the search started in. -/
def EndsBlock (quoting : Quoting) (depth : Nat) (c : Char) : Prop :=
  quoting = .outside ∧ depth = 0 ∧ c = '}'

/-- At the brace that ends the block the body ends. -/
theorem splitBlock_cons_of_ends (h : EndsBlock quoting depth c) (rest : Text) :
    splitBlock quoting depth (c :: rest) = ([], rest) := by
  obtain ⟨rfl, rfl, rfl⟩ := h
  rfl

/-- Any other character belongs to the body. -/
theorem splitBlock_cons_of_not_ends (h : ¬ EndsBlock quoting depth c)
    (rest : Text) :
    splitBlock quoting depth (c :: rest)
      = (c :: (splitBlock (quoting.step c) (braceDepth quoting depth c)
            rest).1,
        (splitBlock (quoting.step c) (braceDepth quoting depth c)
            rest).2) := by
  rw [splitBlock]
  · rfl
  · exact fun hout hdepth hc => h ⟨hout, hdepth, hc⟩

/-- Further down, the same character opens and closes the same blocks. -/
theorem braceDepth_add (h : ¬ EndsBlock quoting depth c) (k : Nat) :
    braceDepth quoting (depth + k) c = braceDepth quoting depth c + k := by
  unfold braceDepth
  by_cases hout : quoting = .outside
  · rw [if_pos hout, if_pos hout]
    by_cases hclose : c = '}'
    · have hdepth : depth ≠ 0 := fun hdepth => h ⟨hout, hdepth, hclose⟩
      have hopen : c ≠ '{' := by
        rw [hclose]
        decide
      rw [if_neg hopen, if_neg hopen, if_pos hclose, if_pos hclose]
      omega
    · rw [if_neg hclose, if_neg hclose]
      split <;> omega
  · rw [if_neg hout, if_neg hout]

/-- A body that closes is passed by with more blocks open around it, too. -/
theorem splitBlock_append_of_closes
    (h : splitBlock quoting depth (body ++ ['}']) = (body, [])) (k : Nat)
    (rest : Text) :
    splitBlock quoting (depth + k) (body ++ rest)
      = (body ++ (splitBlock .outside k rest).1,
        (splitBlock .outside k rest).2) := by
  induction body generalizing quoting depth with
  | nil =>
    -- with nothing left to read, the brace is the one that ends the block
    by_cases hends : EndsBlock quoting depth '}'
    · obtain ⟨rfl, rfl, -⟩ := hends
      rw [Nat.zero_add]
      rfl
    · rw [List.nil_append, splitBlock_cons_of_not_ends hends] at h
      cases h
  | cons c body ih =>
    by_cases hends : EndsBlock quoting depth c
    · rw [List.cons_append, splitBlock_cons_of_ends hends] at h
      cases h
    · -- a character that ends nothing here ends nothing deeper inside
      have hmore : ¬ EndsBlock quoting (depth + k) c := fun hmore =>
        hends ⟨hmore.1, by have := hmore.2.1; omega, hmore.2.2⟩
      rw [List.cons_append, splitBlock_cons_of_not_ends hends,
        Prod.mk.injEq, List.cons.injEq] at h
      have hbody := ih (Prod.ext h.1.2 h.2)
      rw [List.cons_append, splitBlock_cons_of_not_ends hmore,
        braceDepth_add hends, hbody]
      rfl

/-- The braces of a body that its brace ends are balanced. -/
theorem Closes.balanced (h : Closes body) : body.Balanced := by
  intro depth rest
  have hpass := splitBlock_append_of_closes h depth rest
  rwa [Nat.zero_add] at hpass

end Closes

-- ==================================================== what is read

/-- A statement with the semicolon that ends it. -/
def IsStatement (text : Text) : Prop :=
  Starts text ∧ ∃ body, text = body ++ [';'] ∧ Whole body

/-- A statement that nothing ends but the end of the text. -/
def IsTail (text : Text) : Prop :=
  Starts text ∧ Along (Uncut endsHeading) .top text
    ∧ text ≠ [] ∧ ∀ c ∈ text.getLast?, isBlank c = false

/-- Something may stand behind the node. -/
def Node.Ends : Node → Prop
  | .statement text => IsStatement text
  | .rule .. => True
  | .sealed .. => True
  | .block .. => True

mutual

/-- The texts of a node are as reading makes them, and only the last of some
nodes can be a tail. -/
def Node.Read : Node → Prop
  | .statement text => IsStatement text ∨ IsTail text
  | .rule selector declarations =>
    IsHeading selector ∧ isAtRule selector = false ∧ Declared declarations
  | .sealed text =>
    ∃ heading body : Text, text = heading ++ '{' :: body ++ ['}']
      ∧ IsHeading heading ∧ body.Trimmed ∧ isAtRule heading ≠ holdsBlocks body
  | .block heading children =>
    IsHeading heading ∧ isAtRule heading = true ∧ AllRead children
termination_by structural node => node

/-- The nodes side by side are as reading makes them. A node that nothing may
stand behind is the last one. -/
def AllRead : List Node → Prop
  | [] => True
  | node :: rest => node.Read ∧ (∀ _ ∈ rest, node.Ends) ∧ AllRead rest
termination_by structural nodes => nodes

end

/-- Nodes are as reading makes them one by one, but for the last of them all
may have something behind them. -/
theorem allRead_iff : AllRead nodes
    ↔ (∀ node ∈ nodes, node.Read) ∧ nodes.Pairwise fun node _ =>
      node.Ends := by
  induction nodes with
  | nil => simp [AllRead]
  | cons node rest ih =>
    rw [AllRead, ih, List.forall_mem_cons, List.pairwise_cons]
    constructor
    · rintro ⟨hnode, hends, hrest, hpairwise⟩
      exact ⟨⟨hnode, hrest⟩, hends, hpairwise⟩
    · rintro ⟨⟨hnode, hrest⟩, hends, hpairwise⟩
      exact ⟨hnode, hends, hrest, hpairwise⟩

/-- Dropping some of the nodes leaves nodes of that kind. -/
theorem AllRead.sublist {kept : List Node} (h : AllRead nodes)
    (hkept : kept.Sublist nodes) : AllRead kept := by
  rw [allRead_iff] at h ⊢
  exact ⟨fun node hnode => h.1 node (hkept.subset hnode), h.2.sublist hkept⟩

-- =========================================================== headings

/-- No blank ends a heading. -/
theorem uncut_of_isBlank {target : Char → Bool} {state : Nesting} {c : Char}
    (htarget : ∀ d, target d = true → endsHeading d = true)
    (hc : isBlank c = true) : Uncut target state c := by
  have hplain : target c = false := by
    cases htrue : target c with
    | false => rfl
    | true =>
      have hends := htarget c htrue
      simp only [endsHeading, Bool.or_eq_true, beq_iff_eq] at hends
      rcases hends with rfl | rfl <;> exact absurd hc (by decide)
  simp [Uncut, Nesting.cutsAt, hplain]

/-- So in nothing but blanks no heading ends. -/
theorem along_uncut_of_blank {target : Char → Bool} {state : Nesting}
    (htarget : ∀ d, target d = true → endsHeading d = true)
    (h : ∀ c ∈ text, isBlank c = true) : Along (Uncut target) state text := by
  induction text generalizing state with
  | nil => trivial
  | cons c rest ih =>
    exact ⟨uncut_of_isBlank htarget (h c (List.mem_cons_self ..)),
      ih fun d hd => h d (List.mem_cons_of_mem _ hd)⟩

/-- Whether a body holds blocks is whether a brace cuts it. -/
theorem holdsBlocks_congr {a b : Text} (h : Along (Uncut (· == '{')) .top a
    ↔ Along (Uncut (· == '{')) .top b) : holdsBlocks a = holdsBlocks b := by
  rw [← holdsBlocks_eq_false_iff, ← holdsBlocks_eq_false_iff] at h
  cases hb : holdsBlocks b with
  | false => exact h.2 hb
  | true => simpa [hb] using h

/-- The blanks around a body have no brace. -/
theorem holdsBlocks_trim (body : Text) :
    holdsBlocks body.trim = holdsBlocks body := by
  refine holdsBlocks_congr ⟨fun h => ?_, Text.along_trim⟩
  obtain ⟨lead, trail, hlead, htrail, heq⟩ := Text.exists_eq_append_trim body
  rw [heq, Nesting.along_append, Nesting.scan_blanks hlead rfl,
    Nesting.along_append]
  exact ⟨along_uncut_of_blank endsHeading_of_beq_brace hlead, h,
    along_uncut_of_blank endsHeading_of_beq_brace htrail⟩

/-- What is cut off in front of a brace is a heading when it is trimmed. -/
theorem Whole.isHeading_trim (h : Whole text) (hstarts : Starts text) :
    IsHeading text.trim := by
  refine ⟨⟨Text.along_trim h.1, Text.scan_trim h.2⟩, Text.trimmed_trim text,
    ?_⟩
  intro c hc
  rw [Text.head?_trim, Text.trimStart_eq_self fun d hd => (hstarts d hd).1]
    at hc
  exact hstarts c hc

-- ======================================================= declarations

/-- A stretch without a brace and a semicolon is one declaration, or none if it
is blank. -/
theorem declared_filter_trim
    (hbrace : Along (Uncut (· == '{')) .top text)
    (hsemicolon : Along (Uncut (· == ';')) .top text) :
    Declared ([text.trim].filter (!·.isEmpty)) := by
  refine ⟨fun d hd => ?_, ?_⟩
  · obtain ⟨hmem, hne⟩ := List.mem_filter.1 hd
    rw [List.mem_singleton.1 hmem] at hne ⊢
    refine ⟨Text.trimmed_trim text, by simpa using hne, Text.along_trim ?_⟩
    refine (hbrace.and hsemicolon).mono fun state c hc => ?_
    simp only [Uncut, Nesting.cutsAt, endsHeading] at hc ⊢
    grind
  · exact (List.pairwise_singleton _ _).filter _

/-- Declarations may follow each other if the first ones leave nothing open. -/
theorem declared_append {first others : List Text} (h : Declared first)
    (hothers : Declared others)
    (htop : ∀ text ∈ first, Nesting.top.scan text = .top) :
    Declared (first ++ others) :=
  ⟨List.forall_mem_append.2 ⟨h.1, hothers.1⟩,
    List.pairwise_append.2 ⟨h.2, hothers.2, fun text htext _ _ =>
      htop text htext⟩⟩

/-- What is read of a body without blocks can stand in a rule. -/
theorem declared_declarationTexts (h : Along (Uncut (· == '{')) .top body) :
    Declared (declarationTexts body) := by
  fun_induction declarationTexts body with
  | case1 body hnone =>
    exact declared_filter_trim h (Text.along_of_breakFrom_eq_none hnone)
  | case2 body before hit after hsome ih =>
    obtain ⟨huncut, htop⟩ := Text.uncut_of_breakFrom hsome
    obtain ⟨heq, hhit⟩ := Text.eq_of_breakFrom hsome
    rw [beq_iff_eq.1 hhit] at heq
    rw [heq, Nesting.along_append, htop] at h
    refine declared_append (declared_filter_trim h.1 huncut) (ih h.2.2) ?_
    intro text htext
    rw [List.mem_singleton.1 (List.mem_filter.1 htext).1]
    exact Text.scan_trim htop

-- ============================================================ reading

/-- What no semicolon and no brace ends is a tail. -/
theorem isTail_trimEnd {first : Char} {tail : Text}
    (hfirst : isBlank first = false ∧ first ≠ '}')
    (hnone : Text.breakTopLevel endsHeading (first :: tail) = none) :
    IsTail (Text.trimEnd (first :: tail)) := by
  obtain ⟨trail, -, heq⟩ := Text.exists_eq_trimEnd_append (first :: tail)
  have huncut : Along (Uncut endsHeading) .top (first :: tail) :=
    Text.along_of_breakFrom_eq_none hnone
  rw [heq, Nesting.along_append] at huncut
  refine ⟨fun c hc => ?_, huncut.1, fun hnil => ?_,
    Text.isBlank_getLast?_trimEnd⟩
  · cases Text.head?_trimEnd hc
    exact hfirst
  · have hblank := Text.trimEnd_eq_nil_iff.1 hnil first (List.mem_cons_self ..)
    rw [hfirst.1] at hblank
    cases hblank

/-- What precedes the end of a heading starts where the text does. -/
theorem starts_of_append {before : Text} {first c : Char} {tail after : Text}
    (hfirst : isBlank first = false ∧ first ≠ '}')
    (heq : first :: tail = before ++ c :: after) :
    Starts before ∧ Starts (before ++ [c]) := by
  cases before with
  | nil =>
    cases heq
    refine ⟨fun _ hd => (nomatch hd), fun d hd => ?_⟩
    cases hd
    exact hfirst
  | cons d before =>
    cases heq
    refine ⟨fun d hd => ?_, fun d hd => ?_⟩ <;>
    · cases hd
      exact hfirst

/-- A block that is read is one of the three kinds, and each may have something
behind it. -/
theorem Node.read_ofBlock (h : IsHeading heading)
    (hbody : AllRead (Node.parse body)) :
    (Node.ofBlock heading body).Read ∧ (Node.ofBlock heading body).Ends := by
  unfold Node.ofBlock
  split
  · next hinto =>
    rw [Bool.and_eq_true] at hinto
    exact ⟨⟨h, hinto.1, hbody⟩, trivial⟩
  · next hflat =>
    unfold Node.ofFlatBlock
    split
    · next hsealed =>
      have hone : ∀ a b : Bool, (a || b) = true → ¬ (a && b) = true →
          a ≠ b := by
        decide
      refine ⟨⟨heading, body.trim, rfl, h, Text.trimmed_trim body, ?_⟩,
        trivial⟩
      rw [holdsBlocks_trim]
      exact hone _ _ hsealed hflat
    · next hrule =>
      rw [Bool.or_eq_true, not_or, Bool.not_eq_true, Bool.not_eq_true] at hrule
      exact ⟨⟨h, hrule.1, declared_declarationTexts
        (holdsBlocks_eq_false_iff.1 hrule.2)⟩, trivial⟩

/-- Reading makes nodes as reading makes them. The cases are those of the
reader. -/
theorem allRead_parse (text : Text) : AllRead (Node.parse text) := by
  fun_induction Node.parse text with
  | case1 => trivial
  | case2 _ _ _ ih => exact ih
  | case3 text first rest htrim hfirst hnone =>
    have hhead : isBlank first = false :=
      Text.isBlank_head?_trimStart first (by rw [htrim]; rfl)
    -- nothing ends this statement, and nothing is read behind it
    exact ⟨.inr (isTail_trimEnd ⟨hhead, hfirst⟩ hnone), by simp, trivial⟩
  | case4 text first rest htrim hfirst before after hbreak ih =>
    have hhead : isBlank first = false :=
      Text.isBlank_head?_trimStart first (by rw [htrim]; rfl)
    have hwhole : Whole before := Text.uncut_of_breakFrom hbreak
    obtain ⟨heq, -⟩ := Text.eq_of_breakTopLevel hbreak
    have hstatement : IsStatement (before ++ [';']) :=
      ⟨(starts_of_append ⟨hhead, hfirst⟩ heq).2, before, rfl, hwhole⟩
    exact ⟨.inl hstatement, fun _ _ => hstatement, ih⟩
  | case5 text first rest htrim hfirst before ending after hbreak hending
      heading body node ihBody ihRest =>
    have hhead : isBlank first = false :=
      Text.isBlank_head?_trimStart first (by rw [htrim]; rfl)
    have hwhole : Whole before := Text.uncut_of_breakFrom hbreak
    obtain ⟨heq, -⟩ := Text.eq_of_breakTopLevel hbreak
    have hheading : IsHeading heading :=
      hwhole.isHeading_trim (starts_of_append ⟨hhead, hfirst⟩ heq).1
    have hnode := Node.read_ofBlock hheading ihBody
    exact ⟨hnode.1, fun _ _ => hnode.2, ihRest⟩

-- =========================================================== dropping

/-- Marked members keep their order. -/
theorem marked_sublist {α : Type} (marks : List Bool) (xs : List α) :
    (marked marks xs).Sublist xs := by
  induction xs generalizing marks with
  | nil => simp
  | cons x xs ih =>
    cases marks with
    | nil => exact List.nil_sublist _
    | cons mark marks =>
      rw [marked_cons]
      split
      · exact (ih marks).cons_cons x
      · exact (ih marks).cons x

/-- Declarations without some of them are declarations still. -/
theorem Declared.sublist {kept : List Text} (h : Declared declarations)
    (hkept : kept.Sublist declarations) : Declared kept :=
  ⟨fun text htext => h.1 text (hkept.subset htext), h.2.sublist hkept⟩

/-- What is sifted may have something behind it if the node may. -/
theorem Node.Ends.sift {node : Node} (h : node.Ends) (marks : List Bool) :
    ∀ kept ∈ node.sift marks, kept.Ends := by
  intro kept hkept
  cases node with
  | statement text =>
    rw [List.mem_singleton.1 hkept]
    exact h
  | rule selector declarations =>
    rw [Node.sift] at hkept
    split at hkept
    · cases hkept
    · rw [List.mem_singleton.1 hkept]
      trivial
  | «sealed» text =>
    rw [List.mem_singleton.1 (marked_subset _ _ hkept)]
    trivial
  | block heading children =>
    rw [Node.sift] at hkept
    split at hkept
    · cases hkept
    · rw [List.mem_singleton.1 hkept]
      trivial

/-- Nodes may follow nodes that may have something behind them. -/
theorem allRead_append {a b : List Node} (ha : AllRead a) (hb : AllRead b)
    (hends : b ≠ [] → ∀ node ∈ a, node.Ends) : AllRead (a ++ b) := by
  rw [allRead_iff] at *
  refine ⟨List.forall_mem_append.2 ⟨ha.1, hb.1⟩,
    List.pairwise_append.2 ⟨ha.2, hb.2, fun node hnode after hafter => ?_⟩⟩
  exact hends (List.ne_nil_of_mem hafter) node hnode

mutual

/-- Sifting a node that was read leaves nodes as reading makes them. -/
theorem Node.Read.sift (node : Node) (h : node.Read) (marks : List Bool) :
    AllRead (node.sift marks) := by
  cases node with
  | statement text => exact ⟨h, by simp, trivial⟩
  | rule selector declarations =>
    obtain ⟨hselector, hplain, hdeclarations⟩ := h
    rw [Node.sift]
    split
    · trivial
    · exact ⟨⟨hselector, hplain,
        hdeclarations.sublist (marked_sublist marks declarations)⟩,
        by simp, trivial⟩
  | «sealed» text =>
    have hone : AllRead [.sealed text] := ⟨h, by simp, trivial⟩
    exact hone.sublist (marked_sublist marks [Node.sealed text])
  | block heading children =>
    obtain ⟨hheading, hatRule, hchildren⟩ := h
    rw [Node.sift]
    split
    · trivial
    · exact ⟨⟨hheading, hatRule, AllRead.siftAll children hchildren marks⟩,
        by simp, trivial⟩
termination_by structural node

/-- Dropping parts of a forest leaves one that could have been read. -/
theorem AllRead.siftAll (nodes : List Node) (h : AllRead nodes)
    (marks : List Bool) : AllRead (siftAll marks nodes) := by
  cases nodes with
  | nil => trivial
  | cons node rest =>
    obtain ⟨hnode, hends, hrest⟩ := h
    rw [Css.siftAll]
    refine allRead_append (Node.Read.sift node hnode _)
      (AllRead.siftAll rest hrest _) fun hne kept hkept => ?_
    cases rest with
    | nil => exact absurd rfl hne
    | cons next rest =>
      exact (hends next (List.mem_cons_self ..)).sift _ kept hkept
termination_by structural nodes

end

/-- Statements that were there before are taken out, and nothing moves. -/
theorem keepFirstStatements_sublist (seen : List Text) (nodes : List Node) :
    (keepFirstStatements seen nodes).Sublist nodes := by
  induction nodes generalizing seen with
  | nil => exact List.Sublist.refl []
  | cons node rest ih =>
    by_cases hstatement : ∃ text, node = .statement text
    · obtain ⟨text, rfl⟩ := hstatement
      rw [keepFirstStatements]
      split
      · exact (ih seen).cons _
      · exact (ih _).cons_cons _
    · rw [keepFirstStatements_cons hstatement]
      exact (ih seen).cons_cons _

/-- So what is left of a text that was read is as reading makes it. -/
theorem allRead_dedupe (css : Text) :
    AllRead (Node.dedupe (Node.parse css)) := by
  rw [dedupe_eq (allFilled_parse css)]
  exact (AllRead.siftAll _ (allRead_parse css) _).sublist
    (keepFirstStatements_sublist [] _)

-- ============================================== what is read once more

/-- The node is a statement. -/
def Node.isStatement : Node → Bool
  | .statement _ => true
  | .rule .. => false
  | .sealed .. => false
  | .block .. => false

mutual

/-- The node that the text of a node is read as: a block with nothing but
statements in it is one text. -/
def Node.reread : Node → Node
  | .statement text => .statement text
  | .rule selector declarations => .rule selector declarations
  | .sealed text => .sealed text
  | .block heading children =>
    if children.all Node.isStatement then
      .sealed (heading ++ '{' :: renderAll children ++ ['}'])
    else .block heading (rereadAll children)
termination_by structural node => node

/-- The nodes that the text of some nodes is read as. -/
def rereadAll : List Node → List Node
  | [] => []
  | node :: rest => node.reread :: rereadAll rest
termination_by structural nodes => nodes

end

mutual

/-- What stands between the braces of a node, and of the nodes in it. A sealed
text has its braces around all that is behind its heading. -/
def Node.bodies : Node → List Text
  | .statement _ => []
  | .rule _ declarations => [[';'].intercalate declarations]
  | .sealed text =>
    match text.breakTopLevel endsHeading with
    | some (_, _, after) => [after.dropLast]
    | none => []
  | .block _ children => renderAll children :: bodiesAll children
termination_by structural node => node

/-- What stands between the braces of the nodes. -/
def bodiesAll : List Node → List Text
  | [] => []
  | node :: rest => node.bodies ++ bodiesAll rest
termination_by structural nodes => nodes

end

mutual

/-- A node has the text that it is reread from. -/
theorem Node.render_reread (node : Node) :
    node.reread.render = node.render := by
  cases node with
  | statement text => rfl
  | rule selector declarations => rfl
  | «sealed» text => rfl
  | block heading children =>
    rw [Node.reread]
    split
    · rfl
    · rw [Node.render, Node.render, renderAll_rereadAll children]
termination_by structural node

/-- So have nodes. -/
theorem renderAll_rereadAll (nodes : List Node) :
    renderAll (rereadAll nodes) = renderAll nodes := by
  cases nodes with
  | nil => rfl
  | cons node rest =>
    rw [rereadAll, renderAll, renderAll, Node.render_reread node,
      renderAll_rereadAll rest]
termination_by structural nodes

end

-- ================================================ the text of a block

/-- A sealed block has one body, what stands between its first brace and its
last. -/
theorem bodies_sealed (h : IsHeading heading) :
    (Node.sealed (heading ++ '{' :: body ++ ['}'])).bodies = [body] := by
  have hbreak :=
    h.whole.breakTopLevel_append_cons (c := '{') rfl (body ++ ['}'])
  rw [Node.bodies, List.append_assoc, List.cons_append, hbreak]
  simp

/-- A statement has no brace and leaves nothing open. -/
theorem IsStatement.along (h : IsStatement text) :
    Along (Uncut (· == '{')) .top text ∧ Nesting.top.scan text = .top := by
  obtain ⟨-, body, rfl, huncut, htop⟩ := h
  rw [Nesting.along_append, Nesting.scan_append, htop]
  exact ⟨⟨huncut.mono fun _ _ => uncut_of_endsHeading endsHeading_of_beq_brace,
    rfl, trivial⟩, rfl⟩

/-- No brace cuts a tail. -/
theorem IsTail.along (h : IsTail text) :
    Along (Uncut (· == '{')) .top text :=
  h.2.1.mono fun _ _ => uncut_of_endsHeading endsHeading_of_beq_brace

/-- What is no statement has a brace behind its heading. -/
theorem Node.Read.exists_heading {node : Node} (h : node.Read)
    (hplain : node.isStatement = false) :
    ∃ heading after : Text, IsHeading heading
      ∧ node.render = heading ++ '{' :: after := by
  cases node with
  | statement text => cases hplain
  | rule selector declarations =>
    exact ⟨selector, _, h.1, by rw [Node.render, List.append_assoc]; rfl⟩
  | «sealed» text =>
    obtain ⟨heading, body, rfl, hheading, -, -⟩ := h
    exact ⟨heading, _, hheading, by rw [Node.render, List.append_assoc]; rfl⟩
  | block heading children =>
    exact ⟨heading, _, h.1, by rw [Node.render, List.append_assoc]; rfl⟩

/-- The text of some nodes holds blocks unless all of them are statements. -/
theorem holdsBlocks_renderAll_eq (h : AllRead nodes) :
    holdsBlocks (renderAll nodes) = !nodes.all Node.isStatement := by
  induction nodes with
  | nil => rfl
  | cons node rest ih =>
    obtain ⟨hnode, hends, hrest⟩ := h
    cases hstatement : node.isStatement with
    | false =>
      -- the first brace is that of the node
      obtain ⟨heading, after, hheading, hrender⟩ :=
        hnode.exists_heading hstatement
      have huncut : Along (Uncut (· == '{')) .top heading :=
        hheading.whole.1.mono fun _ _ =>
          uncut_of_endsHeading endsHeading_of_beq_brace
      have hbreak : (heading ++ '{' :: (after ++ renderAll rest)).breakTopLevel
          (· == '{') = some (heading, '{', after ++ renderAll rest) :=
        Text.breakFrom_append_cons huncut (by rw [hheading.whole.2]; rfl)
      unfold holdsBlocks
      rw [renderAll, hrender, List.append_assoc, List.cons_append, hbreak,
        List.all_cons, hstatement]
      rfl
    | true =>
      cases node with
      | statement text =>
        rw [List.all_cons, hstatement, Bool.true_and, ← ih hrest, renderAll,
          Node.render]
        cases rest with
        | nil =>
          rw [renderAll, List.append_nil]
          -- the last statement may be a tail
          refine holdsBlocks_congr ⟨fun _ => trivial, fun _ => ?_⟩
          exact hnode.elim (fun hended => hended.along.1) IsTail.along
        | cons next rest =>
          have hended : IsStatement text := hends next (List.mem_cons_self ..)
          refine holdsBlocks_congr ?_
          rw [Nesting.along_append, hended.along.2]
          exact and_iff_right hended.along.1
      | _ => cases hstatement

/-- Statements have no blanks around them. -/
theorem Node.Read.statement_trimmed (h : (Node.statement text).Read) :
    text.Trimmed ∧ text ≠ [] := by
  rcases h with ⟨hstarts, body, rfl, -⟩ | ⟨hstarts, -, hne, hlast⟩
  · refine ⟨⟨fun c hc => (hstarts c hc).1, fun c hc => ?_⟩, by simp⟩
    rw [List.getLast?_concat] at hc
    cases hc
    decide
  · exact ⟨⟨fun c hc => (hstarts c hc).1, hlast⟩, hne⟩

/-- The text of statements has no blank at its ends, so nothing is lost when it
is taken for a body. -/
theorem trimmed_renderAll (h : ∀ node ∈ nodes, node.Read)
    (hstatements : nodes.all Node.isStatement = true) :
    (renderAll nodes).Trimmed := by
  have htexts : ∃ texts : List Text, renderAll nodes = [].intercalate texts
      ∧ ∀ text ∈ texts, text.Trimmed ∧ text ≠ [] := by
    induction nodes with
    | nil => exact ⟨[], rfl, by simp⟩
    | cons node rest ih =>
      rw [List.all_cons, Bool.and_eq_true] at hstatements
      obtain ⟨hnode, hrest⟩ := List.forall_mem_cons.1 h
      obtain ⟨texts, heq, htexts⟩ := ih hrest hstatements.2
      cases node with
      | statement text =>
        refine ⟨text :: texts, ?_,
          List.forall_mem_cons.2 ⟨hnode.statement_trimmed, htexts⟩⟩
        rw [renderAll, heq, Node.render]
        cases texts <;> simp
      | _ => cases hstatements.1
  obtain ⟨texts, heq, htexts⟩ := htexts
  rw [heq]
  exact Text.trimmed_intercalate [] htexts

-- ===================================================== reading it back

/-- The node is read as it is reread, whatever stands behind it. -/
def Node.IsReread (node : Node) : Prop :=
  ∀ rest : Text,
    Node.parse (node.render ++ rest) = node.reread :: Node.parse rest

/-- A node with a heading and a body that closes is read as the reader makes it
of these two. -/
theorem isReread_of_parts {node : Node} (h : IsHeading heading)
    (hbody : Closes body)
    (hrender : node.render = heading ++ '{' :: body ++ ['}'])
    (hnode : Node.ofBlock heading body = node.reread) : node.IsReread := by
  intro rest
  rw [hrender, List.append_assoc, List.singleton_append,
    parse_block h hbody.balanced, hnode]

/-- Which of the two a block is read as is decided by whether there is a node
with braces among its children. -/
theorem isReread_block (h : IsHeading heading)
    (hatRule : isAtRule heading = true) (hnodes : AllRead nodes)
    (hcloses : Closes (renderAll nodes))
    (hparse : Node.parse (renderAll nodes) = rereadAll nodes) :
    (Node.block heading nodes).IsReread := by
  refine isReread_of_parts h hcloses rfl ?_
  have hblocks := holdsBlocks_renderAll_eq hnodes
  rw [Node.reread]
  cases hstatements : nodes.all Node.isStatement with
  | false =>
    rw [hstatements] at hblocks
    rw [ofBlock_block hatRule hblocks, hparse]
    rfl
  | true =>
    rw [hstatements] at hblocks
    refine ofBlock_sealed ?_
      (trimmed_renderAll (allRead_iff.1 hnodes).1 hstatements)
    rw [hatRule, hblocks]
    decide

/-- A statement is read up to its semicolon. -/
theorem isReread_statement (h : IsStatement text) :
    (Node.statement text).IsReread := by
  obtain ⟨hstarts, body, rfl, hwhole⟩ := h
  intro rest
  rw [Node.render, List.append_assoc, List.singleton_append,
    parse_statement hwhole hstarts]
  rfl

/-- A tail is read to the end. -/
theorem parse_tail (h : IsTail text) :
    Node.parse text = [.statement text] := by
  obtain ⟨hstarts, huncut, hne, hlast⟩ := h
  have htrim : text.trimStart = text :=
    Text.trimStart_eq_self fun c hc => (hstarts c hc).1
  have hnone : Text.breakTopLevel endsHeading text = none :=
    Text.breakFrom_eq_none huncut
  rw [Node.parse]
  split
  · next hnil =>
    rw [← htrim, hnil] at hne
    exact absurd rfl hne
  · next first tail hcons =>
    rw [htrim] at hcons
    subst hcons
    rw [if_neg (hstarts first rfl).2]
    split
    · rw [Text.trimEnd_eq_self hlast]
    · next hsome =>
      rw [hnone] at hsome
      cases hsome

mutual

/-- Every node that reading made is reread, if its bodies close and something
may stand behind it. The induction is over nodes, for the children of a
block. -/
theorem Node.Read.isReread (node : Node) (h : node.Read) (hends : node.Ends)
    (hcloses : ∀ body ∈ node.bodies, Closes body) : node.IsReread := by
  cases node with
  | statement text => exact isReread_statement hends
  | rule selector declarations =>
    obtain ⟨hselector, hplain, hdeclarations⟩ := h
    exact isReread_of_parts hselector (hcloses _ (List.mem_singleton.2 rfl))
      rfl
      (ofBlock_rule hplain hdeclarations)
  | «sealed» text =>
    obtain ⟨heading, body, rfl, hheading, htrimmed, hkind⟩ := h
    rw [bodies_sealed hheading] at hcloses
    exact isReread_of_parts hheading (hcloses body (List.mem_singleton.2 rfl))
      rfl (ofBlock_sealed hkind htrimmed)
  | block heading children =>
    obtain ⟨hheading, hatRule, hchildren⟩ := h
    rw [Node.bodies, List.forall_mem_cons] at hcloses
    exact isReread_block hheading hatRule hchildren hcloses.1
      (AllRead.parse_renderAll children hchildren hcloses.2)
termination_by structural node

/-- The text of a forest is read as the forest, but for blocks that hold
statements only. -/
theorem AllRead.parse_renderAll (nodes : List Node) (h : AllRead nodes)
    (hcloses : ∀ body ∈ bodiesAll nodes, Closes body) :
    Node.parse (renderAll nodes) = rereadAll nodes := by
  cases nodes with
  | nil =>
    rw [renderAll, Node.parse]
    rfl
  | cons node rest =>
    obtain ⟨hnode, hends, hrest⟩ := h
    rw [bodiesAll, List.forall_mem_append] at hcloses
    have hbehind := AllRead.parse_renderAll rest hrest hcloses.2
    by_cases hended : node.Ends
    · rw [renderAll, Node.Read.isReread node hnode hended hcloses.1, hbehind,
        rereadAll]
    · -- only a tail does not end, and nothing is behind it
      cases rest with
      | cons next rest =>
        exact absurd (hends next (List.mem_cons_self ..)) hended
      | nil =>
        cases node with
        | statement text =>
          rw [renderAll_singleton, Node.render,
            parse_tail (hnode.resolve_left hended)]
          rfl
        | _ => exact absurd trivial hended
termination_by structural nodes

end

end StyleTree.Css
