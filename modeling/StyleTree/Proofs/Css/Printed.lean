/-
What collapsing makes of printed rules: the rendering of their nodes. The
printer puts blanks and marks between the texts of a rule, and every stretch it
prints ends with a mark, so stretches are collapsed one by one and put side by
side (`Prints`). Each level of the printer is one such stretch: a heading with
its opening brace, a declaration with its semicolon, the lines of a rule, a
rule, a block, and the blocks of a sheet. Only the brace that closes a rule
looks back, at the semicolon in front of it, and takes it away.

The nodes are legible (`Block.legible_node`), so what was printed is also what
is read; if every rule has a declaration they are well formed, too
(`Block.braced_node`).
-/
import Mathlib.Data.List.TakeWhile
import StyleTree.Rule
import StyleTree.Proofs.Css.Collapsed

namespace StyleTree

-- ===================================================== blank texts

namespace Text

/-- There is nothing but blanks in the text. -/
def Blank (text : Text) : Prop := ∀ c ∈ text, isBlank c = true

instance (text : Text) : Decidable text.Blank := List.decidableBAll _ text

theorem Blank.append {a b : Text} (ha : a.Blank) (hb : b.Blank) :
    Blank (a ++ b) :=
  List.forall_mem_append.2 ⟨ha, hb⟩

end Text

namespace Css

open Collapsing (Tight run)

-- ================================================ printed stretches

/-- Behind a mark the text is collapsed to `out`, which ends with a mark again
unless it is empty. -/
structure Prints (text out : Text) : Prop where
  run : ∀ base gap, Tight base → ∃ gap',
    run ⟨base, .outside, gap⟩ text = ⟨out.reverse ++ base, .outside, gap'⟩
  tight : Tight out.reverse

variable {a b x y text out : Text}

/-- Behind a mark a text ends as it ends. -/
theorem Collapsing.Tight.append (hx : Tight x) (hy : Tight y) :
    Tight (x ++ y) := by
  cases x with
  | nil => exact hy
  | cons c x => exact hx

/-- What two texts are collapsed to stands side by side, since each leaves a
mark at its end. -/
theorem Prints.append (ha : Prints a x) (hb : Prints b y) :
    Prints (a ++ b) (x ++ y) := by
  constructor
  · intro base gap hbase
    obtain ⟨gap', hrun⟩ := ha.run base gap hbase
    obtain ⟨gap'', hrun'⟩ := hb.run _ gap' (ha.tight.append hbase)
    refine ⟨gap'', ?_⟩
    rw [Collapsing.run_append, hrun, hrun', List.reverse_append,
      List.append_assoc]
  · rw [List.reverse_append]
    exact hb.tight.append ha.tight

/-- An empty text leaves nothing. -/
theorem prints_nil : Prints [] [] :=
  ⟨fun _ gap _ => ⟨gap, rfl⟩, Collapsing.tight_nil⟩

/-- Blanks are remembered and not written. -/
theorem run_blanks (written : Text) (gap : Bool) (h : text.Blank) :
    ∃ gap', run ⟨written, .outside, gap⟩ text
      = ⟨written, .outside, gap'⟩ := by
  induction text generalizing gap with
  | nil => exact ⟨gap, rfl⟩
  | cons c rest ih =>
    obtain ⟨gap', hrest⟩ :=
      ih true fun d hd => h d (List.mem_cons_of_mem _ hd)
    refine ⟨gap', ?_⟩
    rw [Collapsing.run_cons,
      Collapsing.step_blank rfl (h c (List.mem_cons_self ..)), hrest]

/-- So blanks behind a mark leave nothing. -/
theorem prints_blanks (h : text.Blank) : Prints text [] :=
  ⟨fun base gap _ => run_blanks base gap h, Collapsing.tight_nil⟩

/-- The marks that are not looked back from. -/
theorem step_mark {mark : Char} (hmark : mark = '{' ∨ mark = ';')
    (written : Text) (gap : Bool) :
    Collapsing.step ⟨written, .outside, gap⟩ mark
      = ⟨mark :: written, .outside, false⟩ := by
  have htight : isTightBefore mark = true := by
    rcases hmark with rfl | rfl <;> decide
  have hspace : Collapsing.needsSpace written mark = false := by
    cases written with
    | nil => rfl
    | cons last written => simp [Collapsing.needsSpace, htight]
  have hquote : Quoting.step .outside mark = .outside := by
    rcases hmark with rfl | rfl <;> rfl
  rw [Collapsing.step_plain rfl (by rcases hmark with rfl | rfl <;> decide)
    (by rcases hmark with rfl | rfl <;> decide), hspace, hquote]
  simp

/-- Blanks in front of a mark leave nothing either. -/
theorem run_then_mark {state : Collapsing} {written : Text} {gap : Bool}
    (hrun : run state text = ⟨written, .outside, gap⟩) {blanks : Text}
    (hblanks : blanks.Blank) (mark : Char) :
    ∃ gap', run state (text ++ blanks ++ [mark])
      = Collapsing.step ⟨written, .outside, gap'⟩ mark := by
  obtain ⟨gap', hrun'⟩ := run_blanks written gap hblanks
  refine ⟨gap', ?_⟩
  rw [Collapsing.run_append, Collapsing.run_append, hrun, hrun']
  rfl

/-- A closed text up to the mark behind it. -/
theorem prints_marked (h : text.Closed) (blanks : Text)
    (hblanks : blanks.Blank) (mark : Char)
    (hmark : mark = '{' ∨ mark = ';') :
    Prints (text ++ blanks ++ [mark]) (collapse text ++ [mark]) := by
  constructor
  · intro base gap hbase
    obtain ⟨gap', hrun⟩ :=
      Collapsing.run_braceless hbase gap h.braceless h.quoting_scan
    obtain ⟨gap'', hrun'⟩ := run_then_mark hrun hblanks mark
    refine ⟨false, ?_⟩
    rw [hrun', step_mark hmark]
    simp
  · rw [List.reverse_append]
    intro c hc
    cases hc
    rcases hmark with rfl | rfl <;> decide

/-- A closing brace takes away a semicolon in front of it. -/
theorem Prints.close {last : Char} (h : Prints text (out ++ [last]))
    {blanks : Text} (hblanks : blanks.Blank) :
    Prints (text ++ blanks ++ ['}'])
      ((if last = ';' then out else out ++ [last]) ++ ['}']) := by
  constructor
  · intro base gap hbase
    obtain ⟨gap', hrun⟩ := h.run base gap hbase
    obtain ⟨gap'', hrun'⟩ := run_then_mark hrun hblanks '}'
    refine ⟨false, ?_⟩
    rw [hrun', Collapsing.step_closing rfl, List.reverse_append,
      List.reverse_append]
    by_cases hlast : last = ';'
    · subst hlast
      simp [Collapsing.dropSemicolon]
    · simp [Collapsing.dropSemicolon, hlast]
  · rw [List.reverse_append]
    intro c hc
    cases hc
    decide

/-- Stretches with blanks between them. -/
theorem prints_intercalate {α : Type} {items : List α} {f g : α → Text}
    (h : ∀ item ∈ items, Prints (f item) (g item)) {blanks : Text}
    (hblanks : blanks.Blank) :
    Prints (blanks.intercalate (items.map f)) (items.flatMap g) := by
  induction items with
  | nil => exact prints_nil
  | cons first others ih =>
    have hfirst := h first (List.mem_cons_self ..)
    have hothers := ih fun item hitem => h item (List.mem_cons_of_mem _ hitem)
    cases others with
    | nil => simpa using hfirst
    | cons second others =>
      rw [List.map_cons, List.map_cons, List.intercalate_cons_cons,
        List.append_assoc, List.flatMap_cons]
      exact hfirst.append ((prints_blanks hblanks).append hothers)

/-- A whole text is collapsed as if it stood behind a mark. -/
theorem Prints.collapse_eq (h : Prints text out) : collapse text = out := by
  obtain ⟨gap, hrun⟩ := h.run [] false Collapsing.tight_nil
  show (Collapsing.run ⟨[], .outside, false⟩ text).written.reverse = out
  rw [hrun]
  simp

end Css

-- =================================================== printed rules

open Css (Prints collapse renderAll)

/-- The declaration as it is printed, without the semicolon behind it. -/
def Declaration.spelling (declaration : Declaration) : Text :=
  declaration.property ++ ": ".toList ++ declaration.value

/-- What is left of a rule when it is collapsed. -/
def Rule.node (rule : Rule) : Css.Node :=
  .rule (collapse rule.selector)
    (rule.declarations.map fun d => collapse d.spelling)

/-- What is left of a block when it is collapsed: its rules, inside of the
condition if it has one. -/
def Block.node : Block → Css.Node
  | .rule r => r.node
  | .guarded query rules =>
    .block (collapse query.text) (rules.map Rule.node)

/-- All texts that were put into the rule are closed. -/
def Rule.IsClosed (rule : Rule) : Prop :=
  (∀ query ∈ rule.guard, query.condition.Closed) ∧ rule.selector.Closed
    ∧ ∀ d ∈ rule.declarations, d.property.Closed ∧ d.value.Closed

instance (rule : Rule) : Decidable rule.IsClosed :=
  inferInstanceAs (Decidable ((∀ _ ∈ _, _) ∧ _ ∧ ∀ _ ∈ _, _))

variable {rule : Rule} {indent : Text}

/-- A printed declaration is closed if its two texts are. -/
theorem Declaration.closed_spelling {declaration : Declaration}
    (hproperty : declaration.property.Closed)
    (hvalue : declaration.value.Closed) : declaration.spelling.Closed := by
  have hcolon : Text.Closed ": ".toList := by decide
  exact (hproperty.append hcolon).append hvalue

/-- A printed query is closed if its condition is. -/
theorem Query.closed_text {query : Query} (h : query.condition.Closed) :
    query.text.Closed := by
  have hkeyword : query.kind.keyword.Closed := by
    cases query.kind <;> decide
  have hspace : Text.Closed [' '] := by decide
  unfold Query.text
  split
  · exact hkeyword
  · exact hkeyword.append (hspace.append h)

/-- The lines of a rule. -/
theorem prints_lines (hindent : indent.Blank) (h : rule.IsClosed) :
    Prints (Declaration.lines indent rule.declarations)
      (rule.declarations.flatMap fun d => collapse d.spelling ++ [';']) := by
  refine Css.prints_intercalate (fun d hd => ?_) (by decide)
  obtain ⟨hproperty, hvalue⟩ := h.2.2 d hd
  have hclosed := Declaration.closed_spelling hproperty hvalue
  have hprints := Css.prints_marked hclosed [] (by decide) ';' (.inr rfl)
  rw [List.append_nil] at hprints
  exact (Css.prints_blanks hindent).append hprints

/-- A semicolon behind each text is one between them and one at the end. -/
theorem flatMap_append_semicolon {texts : List Text} (hne : texts ≠ []) :
    texts.flatMap (· ++ [';']) = [';'].intercalate texts ++ [';'] := by
  induction texts with
  | nil => exact absurd rfl hne
  | cons first others ih =>
    cases others with
    | nil => simp
    | cons second others =>
      rw [List.flatMap_cons, ih (List.cons_ne_nil _ _),
        List.intercalate_cons_cons]
      simp

/-- The closing brace of a rule takes away the last semicolon, if there is a
declaration. -/
theorem Css.Prints.close_declarations {text out : Text} {texts : List Text}
    (h : Prints text (out ++ '{' :: texts.flatMap (· ++ [';'])))
    {blanks : Text} (hblanks : blanks.Blank) :
    Prints (text ++ blanks ++ ['}'])
      (out ++ '{' :: [';'].intercalate texts ++ ['}']) := by
  by_cases hne : texts = []
  · subst hne
    have hclosed := h.close hblanks
    rwa [if_neg (by decide)] at hclosed
  · rw [flatMap_append_semicolon hne, ← List.cons_append,
      ← List.append_assoc] at h
    have hclosed := h.close hblanks
    rwa [if_pos rfl] at hclosed

/-- An opened block: the heading and what stands behind its brace. -/
theorem prints_opened {heading body out : Text} (h : heading.Closed)
    (hbody : Prints body out) :
    Prints (heading ++ " \x7b\n".toList ++ body)
      (collapse heading ++ '{' :: out) := by
  have hopen : " \x7b\n".toList = [' '] ++ ['{'] ++ ['\n'] := by decide
  have hheading := Css.prints_marked h [' '] (by decide) '{' (.inl rfl)
  have hline : Prints ['\n'] [] := Css.prints_blanks (by decide)
  have hprints := (hheading.append hline).append hbody
  rw [hopen]
  simpa using hprints

/-- A printed rule is collapsed to the rendering of a rule. -/
theorem Rule.prints_text (hindent : indent.Blank) (h : rule.IsClosed) :
    Prints (rule.text indent) rule.node.render := by
  have hdeeper : Text.Blank (indent ++ "  ".toList) :=
    hindent.append (by decide)
  have hline : Text.Blank ('\n' :: indent) :=
    List.forall_mem_cons.2 ⟨by decide, hindent⟩
  have hlines := prints_lines hdeeper h
  rw [← List.flatMap_map (fun d : Declaration => collapse d.spelling)
    (· ++ [';'])] at hlines
  have hclosed := (prints_opened h.2.1 hlines).close_declarations hline
  have hrule := (Css.prints_blanks hindent).append hclosed
  rw [List.nil_append] at hrule
  have htext : rule.text indent
      = indent ++ (rule.selector ++ " \x7b\n".toList
        ++ Declaration.lines (indent ++ "  ".toList) rule.declarations
        ++ '\n' :: indent ++ ['}']) := by
    simp [Rule.text]
  rw [htext, Rule.node, Css.Node.render]
  exact hrule

-- ============================================================ blocks

namespace Block

/-- The rules of a block have its condition, and an at-rule has rules. -/
def Gathered : Block → Prop
  | .rule r => r.guard = none
  | .guarded query rules => rules ≠ [] ∧ ∀ r ∈ rules, r.guard = some query

/-- A rule joins a block of its own condition only. -/
theorem gathered_cons {r : Rule} {blocks : List Block}
    (h : ∀ block ∈ blocks, block.Gathered) :
    ∀ block ∈ cons r blocks, block.Gathered := by
  have hsingle {query : Query} (hguard : r.guard = some query) :
      Gathered (.guarded query [r]) := by
    refine ⟨List.cons_ne_nil _ _, fun r' hr' => ?_⟩
    rw [List.mem_singleton.1 hr', hguard]
  unfold cons
  split
  · next hguard => exact List.forall_mem_cons.2 ⟨hguard, h⟩
  · next query hguard =>
    split
    · next next rs rest =>
      obtain ⟨hfirst, hrest⟩ := List.forall_mem_cons.1 h
      split
      · next heq =>
        refine List.forall_mem_cons.2 ⟨⟨List.cons_ne_nil _ _, ?_⟩, hrest⟩
        refine List.forall_mem_cons.2 ⟨hguard, fun r' hr' => ?_⟩
        rw [hfirst.2 r' hr', heq]
      · exact List.forall_mem_cons.2 ⟨hsingle hguard, h⟩
    · exact List.forall_mem_cons.2 ⟨hsingle hguard, h⟩

/-- So the rules of every block have its condition. -/
theorem gathered_ofRules (rs : List Rule) :
    ∀ block ∈ ofRules rs, block.Gathered := by
  induction rs with
  | nil => exact fun _ h => nomatch h
  | cons r rest ih => exact gathered_cons ih

/-- The rules of the blocks are those that were given. -/
theorem mem_of_mem_rules {rs : List Rule} {block : Block} {r : Rule}
    (hblock : block ∈ ofRules rs) (hr : r ∈ block.rules) : r ∈ rs := by
  rw [← flatMap_rules_ofRules rs]
  exact List.mem_flatMap.2 ⟨block, hblock, hr⟩

end Block

/-- Nodes are rendered one behind the other. -/
theorem Css.renderAll_map {α : Type} (f : α → Css.Node) (items : List α) :
    renderAll (items.map f) = items.flatMap fun item => (f item).render := by
  induction items with
  | nil => rfl
  | cons item rest ih => rw [List.map_cons, renderAll, ih, List.flatMap_cons]

/-- The last of some rules ends with its brace. -/
theorem exists_flatMap_render {rules : List Rule} (hne : rules ≠ []) :
    ∃ out, (rules.flatMap fun r => r.node.render) = out ++ ['}'] := by
  rw [← List.dropLast_concat_getLast hne, List.flatMap_append]
  exact ⟨_, by
    rw [List.flatMap_singleton, Rule.node, Css.Node.render,
      ← List.append_assoc]⟩

/-- The condition of a block is that of its rules, so it is closed if they
are. -/
theorem Block.closed_query {query : Query} {rules : List Rule}
    (hne : rules ≠ []) (hguard : ∀ r ∈ rules, r.guard = some query)
    (h : ∀ r ∈ rules, r.IsClosed) : query.condition.Closed := by
  obtain ⟨r, rest, rfl⟩ := List.exists_cons_of_ne_nil hne
  have hr := List.mem_cons_self (a := r) (l := rest)
  exact (h r hr).1 query (hguard r hr)

/-- A printed block is collapsed to the rendering of a node. -/
theorem Block.prints_text {block : Block} (hgathered : block.Gathered)
    (h : ∀ r ∈ block.rules, r.IsClosed) :
    Prints block.text block.node.render := by
  cases block with
  | rule r =>
    exact Rule.prints_text (by decide) (h r (List.mem_singleton.2 rfl))
  | guarded query rs =>
    obtain ⟨hne, hguard⟩ := hgathered
    have hquery := Block.closed_query hne hguard h
    have htwo : Text.Blank "  ".toList := by decide
    have hlines : ∀ r ∈ rs, Prints (r.text "  ".toList) r.node.render :=
      fun r hr => Rule.prints_text htwo (h r hr)
    have hline : Text.Blank ['\n'] := by decide
    have hrules := Css.prints_intercalate hlines hline
    have hbody := prints_opened (Query.closed_text hquery) hrules
    obtain ⟨out, hout⟩ := exists_flatMap_render hne
    rw [hout, ← List.cons_append, ← List.append_assoc] at hbody
    have hblock := hbody.close hline
    rw [if_neg (by decide)] at hblock
    have hend : "\n\x7d".toList = ['\n'] ++ ['}'] := by decide
    rw [Block.text, hend, Block.node, Css.Node.render, Css.renderAll_map, hout,
      ← List.append_assoc]
    simpa using hblock

/-- The printed rules are collapsed to the rendering of their nodes. -/
theorem Rule.prints_sheetText {rules : List Rule}
    (h : ∀ r ∈ rules, r.IsClosed) :
    Prints (Rule.sheetText rules)
      (renderAll ((Block.ofRules rules).map Block.node)) := by
  rw [Css.renderAll_map]
  refine Css.prints_intercalate (fun block hblock => ?_) (by decide)
  exact Block.prints_text (Block.gathered_ofRules rules block hblock)
    fun r hr => h r (Block.mem_of_mem_rules hblock hr)

-- ======================================================= well formed

/-- What is not blank is not collapsed to nothing. -/
theorem collapse_ne_nil {text : Text} (h : text.Closed) {c : Char}
    (hc : c ∈ text) (hblank : isBlank c = false) : collapse text ≠ [] := by
  intro hnil
  have hhead := Css.head?_collapse h.braceless h.quoting_scan
  rw [hnil] at hhead
  have hall : text.trimStart = [] := List.head?_eq_none_iff.1 hhead.symm
  have htrue := List.dropWhile_eq_nil_iff.1 hall c hc
  rw [hblank] at htrue
  cases htrue

/-- A collapsed text is an at-rule exactly if the text was one behind its
leading blanks. -/
theorem isAtRule_collapse {text : Text} (h : text.Closed) :
    Css.isAtRule (collapse text) = Css.isAtRule text.trimStart := by
  unfold Css.isAtRule
  rw [Css.head?_collapse h.braceless h.quoting_scan]

/-- The declarations of a closed rule are told apart by their semicolons, and
none of them is empty: each has its colon. -/
theorem Rule.areDeclarations_node (h : rule.IsClosed) :
    Css.AreDeclarations
      (rule.declarations.map fun d => collapse d.spelling) := by
  intro text htext
  obtain ⟨d, hd, rfl⟩ := List.mem_map.1 htext
  obtain ⟨hproperty, hvalue⟩ := h.2.2 d hd
  have hclosed := Declaration.closed_spelling hproperty hvalue
  refine ⟨Css.settled_collapse hclosed,
    collapse_ne_nil hclosed (c := ':') ?_ (by decide)⟩
  simp [Declaration.spelling]

/-- A closed rule is read back, if its selector is not taken for an at-rule. -/
theorem Rule.legible_node (h : rule.IsClosed)
    (hselector : Css.isAtRule rule.selector.trimStart = false) :
    rule.node.Legible := by
  refine Css.legible_rule (Css.settled_collapse h.2.1) ?_
    (Rule.areDeclarations_node h)
  rw [isAtRule_collapse h.2.1, hselector]

/-- A rule with declarations has something between its braces. -/
theorem Rule.braced_node (h : rule.IsClosed) (hne : rule.declarations ≠ [])
    (hselector : Css.isAtRule rule.selector.trimStart = false) :
    rule.node.Braced := by
  refine ⟨Css.settled_collapse h.2.1, ?_, by simpa using hne,
    Rule.areDeclarations_node h⟩
  rw [isAtRule_collapse h.2.1, hselector]

/-- A printed query is an at-rule. -/
theorem Query.isAtRule_text (query : Query) :
    Css.isAtRule query.text.trimStart = true := by
  have hkeyword (rest : Text) :
      Css.isAtRule (Text.trimStart (query.kind.keyword ++ rest)) = true := by
    cases query.kind <;> rfl
  unfold Query.text
  split
  · simpa using hkeyword []
  · exact hkeyword _

/-- Its heading survives being read. -/
theorem Block.settled_query {query : Query} (h : query.condition.Closed) :
    (collapse query.text).Settled
      ∧ Css.isAtRule (collapse query.text) = true := by
  have hclosed := Query.closed_text h
  exact ⟨Css.settled_collapse hclosed,
    (isAtRule_collapse hclosed).trans query.isAtRule_text⟩

/-- A block of closed rules is read back. -/
theorem Block.legible_node {block : Block} (hgathered : block.Gathered)
    (h : ∀ r ∈ block.rules, r.IsClosed
      ∧ Css.isAtRule r.selector.trimStart = false) :
    block.node.Legible := by
  cases block with
  | rule r =>
    obtain ⟨hclosed, hselector⟩ := h r (List.mem_singleton.2 rfl)
    exact Rule.legible_node hclosed hselector
  | guarded query rs =>
    obtain ⟨hne, hguard⟩ := hgathered
    have hquery := Block.settled_query
      (Block.closed_query hne hguard fun r hr => (h r hr).1)
    refine Css.legible_block hquery.1 hquery.2 (by simpa using hne)
      fun node hnode => ?_
    obtain ⟨r, hr, rfl⟩ := List.mem_map.1 hnode
    exact Rule.legible_node (h r hr).1 (h r hr).2

/-- And there is something between its braces. -/
theorem Block.braced_node {block : Block} (hgathered : block.Gathered)
    (h : ∀ r ∈ block.rules, r.IsClosed ∧ r.declarations ≠ []
      ∧ Css.isAtRule r.selector.trimStart = false) :
    block.node.Braced := by
  cases block with
  | rule r =>
    obtain ⟨hclosed, hne, hselector⟩ := h r (List.mem_singleton.2 rfl)
    exact Rule.braced_node hclosed hne hselector
  | guarded query rs =>
    obtain ⟨hne, hguard⟩ := hgathered
    have hquery := Block.settled_query
      (Block.closed_query hne hguard fun r hr => (h r hr).1)
    refine ⟨hquery.1, hquery.2, by simpa using hne,
      Css.allBraced_iff.2 fun node hnode => ?_⟩
    obtain ⟨r, hr, rfl⟩ := List.mem_map.1 hnode
    obtain ⟨hclosed, hne, hselector⟩ := h r hr
    exact Rule.braced_node hclosed hne hselector

end StyleTree
