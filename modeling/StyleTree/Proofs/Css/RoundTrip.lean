/-
Reading undoes rendering. A forest that is built from settled texts, where
every rule declares something and every block holds something, is read back
from its text node by node.

# The step

Both readings of a rendered block find the same brace: the heading has no cut
in it, so it is cut off at the first brace behind it, and the body is balanced,
so it ends at the brace that was written for it. That is `parse_block`, for any
such heading and body; what node it is follows from the heading and from
whether the body has braces of its own. The induction is over the forest, and
inside of a block it is over the children.

What the step asks of a heading (`IsHeading`) and of declarations (`Declared`)
is what reading ever makes of them, and settled texts are such.
-/
import StyleTree.Proofs.Text.Closed
import StyleTree.Proofs.Text.Trim

namespace StyleTree

open Nesting (Along)
open Text (Uncut)

namespace Text

/-- Closed, and without blanks around it. -/
def Settled (text : Text) : Prop := text.Closed ∧ text.Trimmed

instance (text : Text) : Decidable text.Settled :=
  inferInstanceAs (Decidable (_ ∧ _))

end Text

namespace Css

variable {heading body rest text : Text} {declarations : List Text}

-- ================================================ well-formed forests

/-- Texts that can stand between the semicolons of a rule. -/
def AreDeclarations (texts : List Text) : Prop :=
  ∀ text ∈ texts, text.Settled ∧ text ≠ []

instance (texts : List Text) : Decidable (AreDeclarations texts) :=
  List.decidableBAll _ texts

mutual

/-- A node with braces that is read back: each text in it is settled, only a
sealed text and a block are at-rules, and nothing is empty inside of it but a
sealed block. -/
def Node.Braced : Node → Prop
  | .statement _ => False
  | .rule selector declarations =>
    selector.Settled ∧ isAtRule selector = false
      ∧ declarations ≠ [] ∧ AreDeclarations declarations
  | .sealed text =>
    ∃ (heading : Text) (declarations : List Text),
      text = heading ++ '{' :: [';'].intercalate declarations ++ ['}']
        ∧ heading.Settled ∧ isAtRule heading = true
        ∧ AreDeclarations declarations
  | .block heading children =>
    heading.Settled ∧ isAtRule heading = true
      ∧ children ≠ [] ∧ AllBraced children
termination_by structural node => node

/-- All nodes have braces and are read back. -/
def AllBraced : List Node → Prop
  | [] => True
  | node :: rest => node.Braced ∧ AllBraced rest
termination_by structural nodes => nodes

end

/-- A node that is read back at the top level, where statements may stand. -/
def Node.WellFormed : Node → Prop
  | .statement text => ∃ body : Text, text = body ++ [';'] ∧ body.Settled
  | .rule selector declarations => (Node.rule selector declarations).Braced
  | .sealed text => (Node.sealed text).Braced
  | .block heading children => (Node.block heading children).Braced

/-- What is read back inside of a block is read back at the top level. -/
theorem Node.Braced.wellFormed {node : Node} (h : node.Braced) :
    node.WellFormed := by
  cases node with
  | statement text => exact absurd h id
  | rule selector declarations => exact h
  | «sealed» text => exact h
  | block heading children => exact h

theorem allBraced_iff {nodes : List Node} :
    AllBraced nodes ↔ ∀ node ∈ nodes, node.Braced := by
  induction nodes with
  | nil => simp [AllBraced]
  | cons node rest ih => rw [AllBraced, List.forall_mem_cons, ih]

-- ================================================ headings

theorem isMark_of_endsHeading (c : Char) (h : endsHeading c = true) :
    Text.IsMark c := by
  simp only [endsHeading, Bool.or_eq_true, beq_iff_eq] at h
  exact h.imp_right .inr

/-- Nothing before the end of the text ends a heading, and the text may be
followed by what does. -/
def Whole (text : Text) : Prop :=
  Along (Uncut endsHeading) .top text ∧ Nesting.top.scan text = .top

/-- Reading starts at the first character: it is not passed over. -/
def Starts (text : Text) : Prop :=
  ∀ c ∈ text.head?, isBlank c = false ∧ c ≠ '}'

/-- The text can be what precedes a block. -/
structure IsHeading (heading : Text) : Prop where
  whole : Whole heading
  trimmed : heading.Trimmed
  starts : Starts heading

/-- A closed text has no end of a heading in it. -/
theorem whole_of_closed (h : text.Closed) : Whole text :=
  ⟨h.uncut isMark_of_endsHeading, h.2⟩

/-- A settled text starts with a character that is not passed over. -/
theorem starts_of_settled (h : text.Settled) : Starts text := by
  cases text with
  | nil => exact fun _ hc => nomatch hc
  | cons first tail =>
    intro c hc
    cases hc
    exact ⟨h.2.1 first rfl, (h.1.1.1 rfl).2.1⟩

/-- A settled text can be a heading. -/
theorem isHeading_of_settled (h : heading.Settled) : IsHeading heading :=
  ⟨whole_of_closed h.1, h.2, starts_of_settled h⟩

/-- A text still starts at its first character with more behind it. If it is
empty, the first character is what stands behind it. -/
theorem Starts.append_cons (h : Starts text) {c : Char}
    (hc : isBlank c = false ∧ c ≠ '}') (rest : Text) :
    Starts (text ++ c :: rest) := by
  cases text with
  | nil =>
    intro d hd
    cases hd
    exact hc
  | cons first tail => exact h

/-- A heading or a statement ends where it is ended. -/
theorem Whole.breakTopLevel_append_cons (h : Whole text) {c : Char}
    (hc : endsHeading c = true) (rest : Text) :
    (text ++ c :: rest).breakTopLevel endsHeading = some (text, c, rest) := by
  refine Text.breakFrom_append_cons h.1 ?_
  rw [h.2]
  exact Text.cutsAt_top hc (isMark_of_endsHeading c hc)

-- ================================================ declarations

/-- What the semicolons of a rule can stand between. Only the last of the
texts may leave a literal or a bracket open. -/
def Declared (texts : List Text) : Prop :=
  (∀ text ∈ texts, text.Trimmed ∧ text ≠ []
      ∧ Along (Uncut endsHeading) .top text)
    ∧ texts.Pairwise fun text _ => Nesting.top.scan text = .top

/-- Settled texts are as the declarations of a rule are read. -/
theorem AreDeclarations.declared (h : AreDeclarations declarations) :
    Declared declarations := by
  refine ⟨fun text htext => ?_, List.pairwise_of_forall_mem_list ?_⟩
  · obtain ⟨⟨hclosed, htrimmed⟩, hne⟩ := h text htext
    exact ⟨htrimmed, hne, (whole_of_closed hclosed).1⟩
  · exact fun text htext _ _ => (h text htext).1.1.2

/-- Without a semicolon the body is one declaration, or none if it is blank. -/
theorem declarationTexts_of_none
    (h : body.breakTopLevel (· == ';') = none) :
    declarationTexts body = [body.trim].filter (!·.isEmpty) := by
  rw [declarationTexts]
  split
  · rfl
  · next heq => rw [h] at heq; cases heq

/-- What is before a semicolon is a declaration unless it is blank. -/
theorem declarationTexts_of_some {before after : Text} {c : Char}
    (h : body.breakTopLevel (· == ';') = some (before, c, after)) :
    declarationTexts body
      = [before.trim].filter (!·.isEmpty) ++ declarationTexts after := by
  rw [declarationTexts]
  split
  · next heq => rw [h] at heq; cases heq
  · next heq =>
    rw [h] at heq
    cases heq
    rfl

/-- A trimmed text is a declaration as it is. -/
theorem filter_trim_trimmed (h : text.Trimmed) (hne : text ≠ []) :
    [text.trim].filter (!·.isEmpty) = [text] := by
  rw [Text.trim_eq_self_iff.2 h]
  simp [hne]

/-- What ends no heading is none of the characters that end one. -/
theorem uncut_of_endsHeading {target : Char → Bool} {state : Nesting}
    {c : Char}
    (htarget : ∀ d, target d = true → endsHeading d = true)
    (h : Uncut endsHeading state c) : Uncut target state c := by
  unfold Uncut Nesting.cutsAt at *
  cases hc : target c with
  | false => simp
  | true =>
    rw [htarget c hc] at h
    exact h

theorem endsHeading_of_beq_semicolon (c : Char) (h : (c == ';') = true) :
    endsHeading c = true := by
  rw [beq_iff_eq.1 h]
  rfl

theorem endsHeading_of_beq_brace (c : Char) (h : (c == '{') = true) :
    endsHeading c = true := by
  rw [beq_iff_eq.1 h]
  rfl

theorem Declared.tail {first : Text} {others : List Text}
    (h : Declared (first :: others)) : Declared others :=
  ⟨fun text htext => h.1 text (List.mem_cons_of_mem _ htext), h.2.of_cons⟩

/-- Declarations are read back from between their semicolons. -/
theorem declarationTexts_intercalate (h : Declared declarations) :
    declarationTexts ([';'].intercalate declarations) = declarations := by
  induction declarations with
  | nil =>
    rw [declarationTexts_of_none rfl]
    rfl
  | cons first others ih =>
    obtain ⟨htrimmed, hne, huncut⟩ := h.1 first (List.mem_cons_self ..)
    have hfirst : Along (Uncut (· == ';')) .top first :=
      huncut.mono fun _ _ => uncut_of_endsHeading endsHeading_of_beq_semicolon
    cases others with
    | nil =>
      have hbreak : first.breakTopLevel (· == ';') = none :=
        Text.breakFrom_eq_none hfirst
      rw [List.intercalate_singleton, declarationTexts_of_none hbreak,
        filter_trim_trimmed htrimmed hne]
    | cons second others =>
      -- with a declaration behind it, the first one ends at the top
      have htop : Nesting.top.scan first = .top :=
        (List.pairwise_cons.1 h.2).1 second (List.mem_cons_self ..)
      have hbreak : (first ++ ';' :: [';'].intercalate (second :: others)
          ).breakTopLevel (· == ';')
          = some (first, ';', [';'].intercalate (second :: others)) :=
        Text.breakFrom_append_cons hfirst (by rw [htop]; rfl)
      rw [List.intercalate_cons_cons, List.append_assoc,
        List.singleton_append, declarationTexts_of_some hbreak,
        filter_trim_trimmed htrimmed hne, ih h.tail]
      rfl

/-- The body of a rule has no brace outside of literals. -/
theorem braceless_intercalate (h : AreDeclarations declarations) :
    Along Nesting.Braceless .top ([';'].intercalate declarations)
      ∧ Nesting.top.scan ([';'].intercalate declarations) = .top := by
  apply Nesting.along_top_intercalate
  · exact ⟨⟨fun _ => by decide, trivial⟩, rfl⟩
  · intro text htext
    have hclosed : text.Closed := (h text htext).1.1
    exact ⟨hclosed.braceless, hclosed.2⟩

theorem balanced_intercalate (h : AreDeclarations declarations) :
    Text.Balanced ([';'].intercalate declarations) := by
  intro depth rest
  have hpass := Text.splitBlock_append (braceless_intercalate h).1 depth rest
  rwa [(braceless_intercalate h).2] at hpass

/-- A body holds no blocks if it has no opening brace outside of literals and
brackets. -/
theorem holdsBlocks_eq_false_iff :
    holdsBlocks body = false ↔ Along (Uncut (· == '{')) .top body := by
  unfold holdsBlocks
  rw [Option.isSome_eq_false_iff, Option.isNone_iff_eq_none]
  exact ⟨Text.along_of_breakFrom_eq_none, Text.breakFrom_eq_none⟩

/-- The body of a rule holds no blocks. -/
theorem holdsBlocks_intercalate (h : Declared declarations) :
    holdsBlocks ([';'].intercalate declarations) = false := by
  rw [holdsBlocks_eq_false_iff]
  induction declarations with
  | nil => trivial
  | cons first others ih =>
    have hfirst : Along (Uncut (· == '{')) .top first :=
      (h.1 first (List.mem_cons_self ..)).2.2.mono fun _ _ =>
        uncut_of_endsHeading endsHeading_of_beq_brace
    cases others with
    | nil => rwa [List.intercalate_singleton]
    | cons second others =>
      have htop : Nesting.top.scan first = .top :=
        (List.pairwise_cons.1 h.2).1 second (List.mem_cons_self ..)
      rw [List.intercalate_cons_cons, List.append_assoc,
        List.singleton_append, Nesting.along_append, htop]
      exact ⟨hfirst, rfl, ih h.tail⟩

/-- The body of a rule has no blanks around it. -/
theorem trimmed_intercalate (h : AreDeclarations declarations) :
    Text.Trimmed ([';'].intercalate declarations) := by
  apply Text.trimmed_intercalate
  intro text htext
  obtain ⟨hsettled, hne⟩ := h text htext
  exact ⟨hsettled.2, hne⟩

-- ============================================================ blocks

/-- What a block with this heading and body is read as. -/
def Node.ofBlock (heading body : Text) : Node :=
  if isAtRule heading && holdsBlocks body then
    .block heading (Node.parse body)
  else .ofFlatBlock heading body

/-- A heading that is no at-rule makes a rule of its body. -/
theorem ofBlock_rule (hplain : isAtRule heading = false)
    (h : Declared declarations) :
    Node.ofBlock heading ([';'].intercalate declarations)
      = .rule heading declarations := by
  unfold Node.ofBlock Node.ofFlatBlock
  rw [hplain, Bool.false_and, if_neg Bool.false_ne_true,
    holdsBlocks_intercalate h, Bool.false_or, if_neg Bool.false_ne_true,
    declarationTexts_intercalate h]

/-- An at-rule without blocks in it, and anything else with such, is one
text. -/
theorem ofBlock_sealed (h : isAtRule heading ≠ holdsBlocks body)
    (htrimmed : body.Trimmed) :
    Node.ofBlock heading body = .sealed (heading ++ '{' :: body ++ ['}']) := by
  have hone : ∀ a b : Bool, a ≠ b → (a && b) = false ∧ (a || b) = true := by
    decide
  obtain ⟨hflat, hsealed⟩ := hone _ _ h
  unfold Node.ofBlock Node.ofFlatBlock
  rw [hflat, if_neg Bool.false_ne_true, hsealed, if_pos rfl,
    Text.trim_eq_self_iff.2 htrimmed]

/-- An at-rule that holds blocks makes a block of them. -/
theorem ofBlock_block (hatRule : isAtRule heading = true)
    (hblocks : holdsBlocks body = true) :
    Node.ofBlock heading body = .block heading (Node.parse body) := by
  unfold Node.ofBlock
  rw [hatRule, hblocks, Bool.true_and, if_pos rfl]

/-- What ends the first heading decides what is read: a statement in front of a
semicolon, and a block in front of a brace. -/
theorem parse_of_break {before after : Text} {ending : Char}
    (hstarts : Starts text)
    (hbreak : text.breakTopLevel endsHeading = some (before, ending, after)) :
    Node.parse text =
      if ending = ';' then .statement (before ++ [';']) :: Node.parse after
      else .ofBlock before.trim (splitBlock .outside 0 after).1
        :: Node.parse (splitBlock .outside 0 after).2 := by
  have htrim : text.trimStart = text :=
    Text.trimStart_eq_self fun c hc => (hstarts c hc).1
  rw [Node.parse]
  split
  · next hnil =>
    -- nothing breaks an empty text
    rw [← htrim, hnil] at hbreak
    cases hbreak
  · next first tail hcons =>
    rw [htrim] at hcons
    subst hcons
    rw [if_neg (hstarts first rfl).2]
    split
    · next hnone => rw [hbreak] at hnone; cases hnone
    · next hsome =>
      rw [hbreak] at hsome
      cases hsome
      rfl

/-- A block is read as what its heading and body make it, up to the brace that
was written for its end. -/
theorem parse_block (h : IsHeading heading) (hbody : body.Balanced)
    (rest : Text) :
    Node.parse (heading ++ '{' :: body ++ '}' :: rest)
      = .ofBlock heading body :: Node.parse rest := by
  rw [List.append_assoc, List.cons_append]
  have hbreak := h.whole.breakTopLevel_append_cons (c := '{') rfl
    (body ++ '}' :: rest)
  rw [parse_of_break (h.starts.append_cons (by decide) _) hbreak,
    if_neg (by decide), hbody.splitBlock, Text.trim_eq_self_iff.2 h.trimmed]

/-- A whole text in front of a semicolon is read as a statement. -/
theorem parse_statement (h : Whole body) (hstarts : Starts (body ++ [';']))
    (rest : Text) :
    Node.parse (body ++ ';' :: rest)
      = .statement (body ++ [';']) :: Node.parse rest := by
  have hbreak := h.breakTopLevel_append_cons (c := ';') rfl rest
  have hhead : Starts (body ++ ';' :: rest) := by
    cases body with
    | nil => exact hstarts
    | cons first tail => exact hstarts
  rw [parse_of_break hhead hbreak, if_pos rfl]

-- ====================================================== single nodes

/-- The node is found again wherever it was rendered: its text has a heading in
front of its first brace, is passed by in the search for the end of a block,
and is read as the node and nothing behind it. -/
structure Node.Legible (node : Node) : Prop where
  heading : ∃ heading after : Text,
    heading.Closed ∧ node.render = heading ++ '{' :: after
  balanced : node.render.Balanced
  parse : ∀ rest : Text,
    Node.parse (node.render ++ rest) = node :: Node.parse rest

/-- A node is legible if it is what its heading and its body make it. -/
theorem Node.legible_of_parts {node : Node} (h : heading.Settled)
    (hbody : body.Balanced)
    (hrender : node.render = heading ++ '{' :: body ++ ['}'])
    (hnode : Node.ofBlock heading body = node) : node.Legible := by
  rw [List.append_assoc] at hrender
  refine ⟨⟨heading, _, h.1, hrender⟩, ?_, fun rest => ?_⟩
  · rw [hrender]
    exact h.1.balanced.append hbody.braces
  · rw [hrender, ← List.append_assoc, List.append_assoc, List.singleton_append,
      parse_block (isHeading_of_settled h) hbody, hnode]

/-- A rule is read back. -/
theorem legible_rule (h : heading.Settled) (hplain : isAtRule heading = false)
    (hdeclarations : AreDeclarations declarations) :
    (Node.rule heading declarations).Legible :=
  Node.legible_of_parts h (balanced_intercalate hdeclarations) rfl
    (ofBlock_rule hplain hdeclarations.declared)

/-- So is a sealed text, as its heading and its body hold no block. -/
theorem legible_sealed (h : heading.Settled)
    (hatRule : isAtRule heading = true)
    (hdeclarations : AreDeclarations declarations) :
    (Node.sealed (heading ++ '{' :: [';'].intercalate declarations
      ++ ['}'])).Legible := by
  refine Node.legible_of_parts h (balanced_intercalate hdeclarations) rfl ?_
  refine ofBlock_sealed ?_ (trimmed_intercalate hdeclarations)
  rw [hatRule, holdsBlocks_intercalate hdeclarations.declared]
  decide

-- ============================================================ forests

variable {nodes : List Node}

/-- The text of nodes that are read back is balanced, so it can stand in a
block. -/
theorem balanced_renderAll (h : ∀ node ∈ nodes, node.Legible) :
    (renderAll nodes).Balanced := by
  induction nodes with
  | nil => exact Text.balanced_nil
  | cons node rest ih =>
    obtain ⟨hnode, hrest⟩ := List.forall_mem_cons.1 h
    exact hnode.balanced.append (ih hrest)

/-- It has a brace in it if there is a node. -/
theorem holdsBlocks_renderAll (hne : nodes ≠ [])
    (h : ∀ node ∈ nodes, node.Legible) :
    holdsBlocks (renderAll nodes) = true := by
  obtain ⟨node, rest, rfl⟩ := List.exists_cons_of_ne_nil hne
  obtain ⟨heading, after, hheading, hrender⟩ :=
    (h node (List.mem_cons_self ..)).heading
  have hmark (c : Char) (hc : (c == '{') = true) : Text.IsMark c :=
    .inl (beq_iff_eq.1 hc)
  have hbreak := hheading.breakTopLevel_append_cons (c := '{')
    (b := after ++ renderAll rest) hmark rfl
  unfold holdsBlocks
  rw [renderAll, hrender, List.append_assoc, List.cons_append, hbreak]
  rfl

/-- Nodes that are read one by one are read from their common text, and what
stands behind them is read as if it stood alone. -/
theorem parse_renderAll_append
    (h : ∀ node ∈ nodes, ∀ rest : Text,
      Node.parse (node.render ++ rest) = node :: Node.parse rest)
    (rest : Text) :
    Node.parse (renderAll nodes ++ rest) = nodes ++ Node.parse rest := by
  induction nodes with
  | nil => rfl
  | cons node others ih =>
    obtain ⟨hnode, hothers⟩ := List.forall_mem_cons.1 h
    rw [renderAll, List.append_assoc, hnode, ih hothers, List.cons_append]

/-- Nodes are read back together if each is read back with anything behind
it. -/
theorem parse_renderAll_of_parse
    (h : ∀ node ∈ nodes, ∀ rest : Text,
      Node.parse (node.render ++ rest) = node :: Node.parse rest) :
    Node.parse (renderAll nodes) = nodes := by
  have hnodes := parse_renderAll_append h []
  have hnil : Node.parse [] = [] := by
    rw [Node.parse]
    rfl
  rwa [hnil, List.append_nil, List.append_nil] at hnodes

/-- A block is read back if the nodes in it are. -/
theorem legible_block (h : heading.Settled) (hatRule : isAtRule heading = true)
    (hne : nodes ≠ []) (hnodes : ∀ node ∈ nodes, node.Legible) :
    (Node.block heading nodes).Legible := by
  refine Node.legible_of_parts h (balanced_renderAll hnodes) rfl ?_
  rw [ofBlock_block hatRule (holdsBlocks_renderAll hne hnodes),
    parse_renderAll_of_parse fun node hnode => (hnodes node hnode).parse]

mutual

/-- So every node with braces is read back, by induction on the node. -/
theorem Node.Braced.legible (node : Node) (h : node.Braced) :
    node.Legible := by
  cases node with
  | statement text => exact absurd h id
  | rule selector declarations =>
    obtain ⟨hselector, hplain, -, hdeclarations⟩ := h
    exact legible_rule hselector hplain hdeclarations
  | «sealed» text =>
    obtain ⟨heading, declarations, rfl, hheading, hatRule, hdeclarations⟩ := h
    exact legible_sealed hheading hatRule hdeclarations
  | block heading children =>
    obtain ⟨hheading, hatRule, hne, hchildren⟩ := h
    exact legible_block hheading hatRule hne
      (AllBraced.legible children hchildren)
termination_by structural node

theorem AllBraced.legible (nodes : List Node) (h : AllBraced nodes) :
    ∀ node ∈ nodes, node.Legible := by
  cases nodes with
  | nil => exact fun _ hnode => nomatch hnode
  | cons node rest =>
    exact List.forall_mem_cons.2
      ⟨Node.Braced.legible node h.1, AllBraced.legible rest h.2⟩
termination_by structural nodes

end

/-- A well-formed node is read back, with anything behind it. -/
theorem Node.WellFormed.parse_render {node : Node} (h : node.WellFormed)
    (rest : Text) :
    Node.parse (node.render ++ rest) = node :: Node.parse rest := by
  cases node with
  | statement text =>
    obtain ⟨body, rfl, hbody⟩ := h
    rw [Node.render, List.append_assoc, List.singleton_append,
      parse_statement (whole_of_closed hbody.1)
        ((starts_of_settled hbody).append_cons (by decide) [])]
  | rule selector declarations => exact (Node.Braced.legible _ h).parse rest
  | «sealed» text => exact (Node.Braced.legible _ h).parse rest
  | block heading children => exact (Node.Braced.legible _ h).parse rest

/-- Reading a rendered forest gives back the forest. -/
theorem parse_renderAll (h : ∀ node ∈ nodes, node.WellFormed) :
    Node.parse (renderAll nodes) = nodes :=
  parse_renderAll_of_parse fun node hnode => (h node hnode).parse_render

/-- Rendering is undone by reading: a forest is read back from its text, and in
front of any other text it is read back with what that text is read as
alone. -/
theorem forest_read_back (h : ∀ node ∈ nodes, node.WellFormed) :
    Node.parse (renderAll nodes) = nodes
    ∧ ∀ rest : Text,
      Node.parse (renderAll nodes ++ rest) = nodes ++ Node.parse rest :=
  ⟨parse_renderAll h,
    parse_renderAll_append fun node hnode => (h node hnode).parse_render⟩

/-- An import, a rule, a font and nested at-rules, with marks inside of
literals and of brackets. -/
def markedForest : List Node := [
  .statement "@import \"a;b\x7bc\x7d\";".toList,
  .rule "a[title=\"\x7d\"]".toList
    ["content:\"\x7b;\\\"\"".toList, "background:url(a;b)".toList],
  .sealed "@font-face\x7bsrc:url(f;g);font-family:'\x7d'\x7d".toList,
  .block "@media print".toList [
    .rule ".b".toList ["x:1".toList],
    .block "@supports (gap:1px)".toList [
      .rule ".c".toList ["y:2 !important".toList, "y:3".toList]]]]

theorem forest_read_back_marked :
    (∀ node ∈ markedForest, node.WellFormed)
    ∧ Node.parse (renderAll markedForest) = markedForest
    ∧ ∀ rest : Text, Node.parse (renderAll markedForest ++ rest)
      = markedForest ++ Node.parse rest := by
  have himport : (Node.statement
      "@import \"a;b\x7bc\x7d\";".toList).WellFormed :=
    ⟨"@import \"a;b\x7bc\x7d\"".toList, rfl, by decide +kernel⟩
  have hfont : (Node.sealed
      "@font-face\x7bsrc:url(f;g);font-family:'\x7d'\x7d".toList).Braced :=
    ⟨"@font-face".toList, ["src:url(f;g)".toList, "font-family:'\x7d'".toList],
      by decide +kernel⟩
  have hrule {selector : Text} {declarations : List Text}
      (h : selector.Settled ∧ isAtRule selector = false ∧ declarations ≠ []
        ∧ AreDeclarations declarations) :
      (Node.rule selector declarations).Braced := h
  have hblock {heading : Text} {children : List Node}
      (h : heading.Settled ∧ isAtRule heading = true)
      (hchildren : children ≠ [] ∧ AllBraced children) :
      (Node.block heading children).Braced := ⟨h.1, h.2, hchildren⟩
  have hall : ∀ node ∈ markedForest, node.WellFormed := by
    unfold markedForest
    simp only [List.forall_mem_cons, List.not_mem_nil, false_implies,
      implies_true, and_true]
    refine ⟨himport, hrule (by decide +kernel), hfont,
      hblock (by decide +kernel) ⟨by simp, hrule (by decide +kernel), ?_,
        trivial⟩⟩
    exact hblock (by decide +kernel) ⟨by simp, hrule (by decide +kernel),
      trivial⟩
  exact ⟨hall, forest_read_back hall⟩

end Css

end StyleTree
