/-
Nested selectors stay under their root. Composition substitutes text, so
whether a composed selector is still about its root depends on what the
fragments do to the scan that cuts selector lists: a fragment must not leave a
literal open, must not close a bracket of its surroundings, and must not ask
for its parent inside of a literal. One that has no part at all composes to
the empty selector. A fragment without these four is sound
(`Selector.Sound`), and below sound fragments every part of every selector has
the root in it.

# The invariant

`Anchored root text` is kept by composing with a sound fragment: the text
closes only its own brackets and literals, and each of its parts has the root
in it. Parts are recomposed one by one (`Piece.nest`), and joining them again
makes at most the cuts that were there, since a comma inside of a part is
under a bracket, and stays so however many brackets are open around the part.
-/
import StyleTree.Proofs.Text.Split
import StyleTree.Proofs.Text.Trim
import StyleTree.Proofs.Walk.Placement
import Mathlib.Data.List.Infix

namespace StyleTree

namespace Selector

open Nesting (Along Matched)
open Text (Uncut)

variable {root text parent child fragment : Text}

-- ========================================================= scope

/-- A selector is about its root: it is not blank, and each part of the comma
list has the root in it. -/
def IsScoped (root selector : Text) : Prop :=
  selector.trim ≠ [] ∧ ∀ part ∈ selector.splitTopLevel ',', root <:+: part

/-- A root that is one plain part: not blank, and without commas, quotes and
brackets. -/
def IsPlainRoot (root : Text) : Prop :=
  root.trim ≠ [] ∧ ∀ c ∈ root, c ≠ ',' ∧ Nesting.isStructural c = false

instance (root selector : Text) : Decidable (IsScoped root selector) :=
  inferInstanceAs (Decidable (_ ∧ _))

instance (root : Text) : Decidable (IsPlainRoot root) :=
  @instDecidableAnd _ _ inferInstance (List.decidableBAll _ root)

/-- The marker of the parent does not stand inside of a literal. -/
def Unquoted (state : Nesting) (c : Char) : Prop :=
  c = '&' → state.quoting = .outside

/-- A fragment that composition can read as it is meant: it has a part, it
closes its literals, it closes no bracket that it has not opened, and it has
no parent marker inside of a literal. -/
def Sound (fragment : Text) : Prop :=
  fragment.commaParts ≠ [] ∧ (Nesting.top.scan fragment).quoting = .outside
    ∧ Along Matched .top fragment ∧ Along Unquoted .top fragment

instance (state : Nesting) (c : Char) : Decidable (Unquoted state c) :=
  inferInstanceAs (Decidable (_ → _))

instance (fragment : Text) : Decidable (Sound fragment) :=
  inferInstanceAs (Decidable (_ ∧ _))

-- ========================================================= pieces

/-- A text that stays one part wherever it is put: it closes only its own
brackets, has no comma on its top level, and ends outside of literals. -/
structure Piece (text : Text) : Prop where
  matched : Along Matched .top text
  uncut : Along (Uncut (· == ',')) .top text
  closed : (Nesting.top.scan text).quoting = .outside

/-- A step that closes no more than was opened does not do so deeper inside. -/
theorem Matched.raise {state : Nesting} {c : Char} (k : Nat)
    (h : Matched state c) : Matched (state.raise k) c := by
  intro hout hclosing
  have hdepth := h hout hclosing
  show state.depth + k ≠ 0
  omega

/-- A piece may be trimmed. -/
theorem Piece.trim (h : Piece text) : Piece text.trim :=
  ⟨Text.along_trim h.matched, Text.along_trim h.uncut,
    Text.quoting_scan_trim h.closed⟩

/-- A piece is read inside of brackets as it is read alone. -/
theorem Piece.scan_raise (h : Piece text) (k : Nat) :
    (Nesting.top.raise k).scan text
      = Nesting.top.raise ((Nesting.top.scan text).depth + k) := by
  rw [Nesting.scan_raise k h.matched]
  show Nesting.mk _ _ = Nesting.mk _ _
  rw [h.closed]
  congr 1
  show _ = 0 + _
  omega

/-- A piece may stand inside of brackets. -/
theorem Piece.matched_raise (h : Piece text) (k : Nat) :
    Along Matched (Nesting.top.raise k) text :=
  h.matched.raise k h.matched fun _ _ => Matched.raise k

/-- Inside of brackets it is not cut either. -/
theorem Piece.uncut_raise (h : Piece text) (k : Nat) :
    Along (Uncut (· == ',')) (Nesting.top.raise k) text :=
  h.matched.raise k h.uncut fun _ _ => Uncut.raise k

/-- Two pieces one behind the other are a piece: the second is read under
whatever brackets the first has left open. -/
theorem Piece.append {a b : Text} (ha : Piece a) (hb : Piece b) :
    Piece (a ++ b) := by
  have hscan := ha.scan_raise 0
  rw [show Nesting.top.raise 0 = Nesting.top from rfl] at hscan
  refine ⟨Nesting.along_append.2 ⟨ha.matched, ?_⟩,
    Nesting.along_append.2 ⟨ha.uncut, ?_⟩, ?_⟩
  · rw [hscan]
    exact hb.matched_raise _
  · rw [hscan]
    exact hb.uncut_raise _
  · rw [Nesting.scan_append, hscan, hb.scan_raise]
    rfl

theorem Piece.blank : Piece [' '] := ⟨by decide, by decide, rfl⟩

/-- Putting a piece in place of the markers of another, when none of them is
inside of a literal. The induction is over the second piece; the markers read
so far have raised its states, and each raises them once more. -/
theorem Piece.along_replace (hparent : Piece parent) {state : Nesting}
    (k : Nat)
    (hm : Along Matched state child)
    (hu : Along (Uncut (· == ',')) state child)
    (hq : Along Unquoted state child) :
    Along Matched (state.raise k) (child.replace '&' parent)
      ∧ Along (Uncut (· == ',')) (state.raise k) (child.replace '&' parent)
      ∧ ((state.raise k).scan (child.replace '&' parent)).quoting
        = (state.scan child).quoting := by
  induction child generalizing state k with
  | nil => exact ⟨trivial, trivial, rfl⟩
  | cons c rest ih =>
    have hreplace : Text.replace (c :: rest) '&' parent
        = (if c = '&' then parent else [c])
          ++ Text.replace rest '&' parent := rfl
    rw [hreplace]
    by_cases hc : c = '&'
    · -- the state is outside of literals, so the parent is read as alone
      have hout := hq.1 hc
      have hstep : state.step c = state :=
        Nesting.step_of_not_isStructural (by rw [hc]; rfl) hout
      have hstate : state.raise k = Nesting.top.raise (state.depth + k) := by
        show Nesting.mk _ _ = Nesting.mk _ _
        rw [hout]
        congr 1
        show _ = 0 + _
        omega
      have hscan : (state.raise k).scan parent
          = state.raise ((Nesting.top.scan parent).depth + k) := by
        rw [hstate, hparent.scan_raise]
        show Nesting.mk _ _ = Nesting.mk _ _
        rw [hout]
        congr 1
        show 0 + _ = _
        omega
      have hrest := ih ((Nesting.top.scan parent).depth + k)
        (hstep ▸ hm.2) (hstep ▸ hu.2) (hstep ▸ hq.2)
      rw [if_pos hc, Nesting.along_append, Nesting.along_append,
        Nesting.scan_append, hscan, Nesting.scan_cons, hstep]
      refine ⟨⟨?_, hrest.1⟩, ⟨?_, hrest.2.1⟩, hrest.2.2⟩
      · rw [hstate]
        exact hparent.matched_raise _
      · rw [hstate]
        exact hparent.uncut_raise _
    · have hrest := ih k hm.2 hu.2 hq.2
      rw [if_neg hc, List.singleton_append, Nesting.along_cons,
        Nesting.along_cons, Nesting.scan_cons, Nesting.scan_cons,
        Nesting.step_raise k hm.1]
      exact ⟨⟨Matched.raise k hm.1, hrest.1⟩,
        ⟨Uncut.raise k hu.1, hrest.2.1⟩, hrest.2.2⟩

/-- A child nested into a parent is a piece, if its `&` are not in literals. -/
theorem Piece.nest (hparent : Piece parent) (hchild : Piece child)
    (hq : Along Unquoted .top child) : Piece (nest parent child) := by
  unfold Selector.nest
  split
  · obtain ⟨hm, hu, hout⟩ :=
      hparent.along_replace 0 hchild.matched hchild.uncut hq
    exact ⟨hm, hu, hout.trans hchild.closed⟩
  · split
    · exact hparent.append hchild
    · exact hparent.append (Piece.blank.append hchild)

/-- A child that is put under its parent has the parent in it. -/
theorem infix_nest (parent child : Text) : parent <:+: nest parent child := by
  unfold Selector.nest
  split
  · next hmem =>
    obtain ⟨before, after, rfl⟩ := List.append_of_mem hmem
    refine ⟨Text.replace before '&' parent, Text.replace after '&' parent, ?_⟩
    rw [Text.replace_append, List.append_assoc]
    rfl
  · split
    · exact (List.prefix_append ..).isInfix
    · exact (List.prefix_append ..).isInfix

-- ========================================================== lists

/-- The parts of a list without unmatched brackets and open literals are
pieces. -/
theorem piece_of_mem_commaParts {p : Nesting → Char → Prop}
    (hm : Along Matched .top text) (hp : Along p .top text)
    (hout : (Nesting.top.scan text).quoting = .outside)
    {part : Text} (hpart : part ∈ text.commaParts) :
    Piece part ∧ Along p .top part := by
  obtain ⟨hmem, -⟩ := List.mem_filter.1 hpart
  obtain ⟨raw, hraw, rfl⟩ := List.mem_map.1 hmem
  obtain ⟨hall, huncut, hclosed⟩ :=
    Text.of_mem_splitTopLevel (hm.and hp) hout hraw
  have hpiece : Piece raw := ⟨hall.mono fun _ _ h => h.1, huncut, hclosed⟩
  exact ⟨hpiece.trim, Text.along_trim (hall.mono fun _ _ h => h.2)⟩

theorem listSeparator_eq : listSeparator = [',', ' '] := by decide

/-- Read from outside of literals, what is between two parts of a list neither
opens nor closes anything. -/
theorem scan_listSeparator (k : Nat) :
    Along Matched (Nesting.top.raise k) listSeparator
      ∧ (Nesting.top.raise k).scan listSeparator = Nesting.top.raise k := by
  have hcomma : (Nesting.top.raise k).step ',' = Nesting.top.raise k :=
    Nesting.step_of_not_isStructural (by decide) rfl
  have hblank : (Nesting.top.raise k).step ' ' = Nesting.top.raise k :=
    Nesting.step_of_not_isStructural (by decide) rfl
  rw [listSeparator_eq, Nesting.along_cons, Nesting.along_cons,
    Nesting.scan_cons, Nesting.scan_cons, hcomma, hblank]
  exact ⟨⟨fun _ h => absurd h (by decide), fun _ h => absurd h (by decide),
    trivial⟩, rfl⟩

/-- Pieces with separators between them leave no bracket unmatched and no
literal open. -/
theorem along_matched_join {pieces : List Text}
    (hpieces : ∀ piece ∈ pieces, Piece piece) (k : Nat) :
    Along Matched (Nesting.top.raise k) (listSeparator.intercalate pieces)
      ∧ ((Nesting.top.raise k).scan
        (listSeparator.intercalate pieces)).quoting = .outside := by
  induction pieces generalizing k with
  | nil => exact ⟨trivial, rfl⟩
  | cons piece rest ih =>
    have hpiece := hpieces piece (List.mem_cons_self ..)
    cases rest with
    | nil =>
      rw [List.intercalate_singleton, hpiece.scan_raise]
      exact ⟨hpiece.matched_raise k, rfl⟩
    | cons next rest =>
      have hrest := ih (fun q hq => hpieces q (List.mem_cons_of_mem _ hq))
        ((Nesting.top.scan piece).depth + k)
      obtain ⟨hsep, hscan⟩ :=
        scan_listSeparator ((Nesting.top.scan piece).depth + k)
      rw [List.intercalate_cons_cons, List.append_assoc, Nesting.along_append,
        Nesting.along_append, Nesting.scan_append, Nesting.scan_append,
        hpiece.scan_raise, hscan]
      exact ⟨⟨hpiece.matched_raise k, hsep, hrest.1⟩, hrest.2⟩

/-- A comma between two joined pieces cuts them apart, if no bracket is open
there, and else is a character like any other. -/
theorem splitFrom_listSeparator_append {joined first : Text}
    {others : List Text} {depth : Nat}
    (h : Text.splitFrom ',' (Nesting.top.raise depth) joined
      = first :: others) :
    Text.splitFrom ',' (Nesting.top.raise depth) (listSeparator ++ joined)
        = [] :: (' ' :: first) :: others
      ∨ Text.splitFrom ',' (Nesting.top.raise depth) (listSeparator ++ joined)
        = (listSeparator ++ first) :: others := by
  obtain ⟨-, hscan⟩ := scan_listSeparator depth
  cases depth with
  | zero =>
    left
    rw [listSeparator_eq]
    show Text.splitFrom ',' .top (',' :: ([' '] ++ joined)) = _
    rw [Text.splitFrom_cons_of_cutsAt _ (by decide)]
    congr 1
    exact Text.splitFrom_append Piece.blank.uncut h
  | succ depth =>
    right
    -- inside of a bracket nothing is cut
    have hnot : ∀ c, Uncut (· == ',') (Nesting.top.raise (depth + 1)) c := by
      intro c
      simp [Uncut, Nesting.cutsAt, Nesting.raise, Nesting.top]
    refine Text.splitFrom_append ?_ (by rw [hscan]; exact h)
    rw [listSeparator_eq, Nesting.along_cons, Nesting.along_cons,
      Nesting.step_of_not_isStructural (by decide) rfl]
    exact ⟨hnot _, hnot _, trivial⟩

/-- Joined pieces are cut between two pieces or not at all, so where each of
them has the root in it, each part has. -/
theorem infix_of_mem_splitFrom_join {pieces : List Text} (hne : pieces ≠ [])
    (hpieces : ∀ piece ∈ pieces, Piece piece ∧ root <:+: piece) (k : Nat) :
    ∀ part ∈ Text.splitFrom ',' (Nesting.top.raise k)
      (listSeparator.intercalate pieces), root <:+: part := by
  induction pieces generalizing k with
  | nil => exact absurd rfl hne
  | cons piece rest ih =>
    obtain ⟨hpiece, hroot⟩ := hpieces piece (List.mem_cons_self ..)
    cases rest with
    | nil =>
      rw [List.intercalate_singleton,
        Text.splitFrom_eq_singleton (hpiece.uncut_raise k)]
      intro part hpart
      rw [List.mem_singleton.1 hpart]
      exact hroot
    | cons next rest =>
      have hrest := ih (List.cons_ne_nil next rest)
        (fun q hq => hpieces q (List.mem_cons_of_mem _ hq))
        ((Nesting.top.scan piece).depth + k)
      rw [List.intercalate_cons_cons, List.append_assoc]
      generalize listSeparator.intercalate (next :: rest) = joined at hrest
      obtain ⟨first, others, hsplit⟩ := List.exists_cons_of_ne_nil
        (Text.splitFrom_ne_nil ',' (Nesting.top.raise
          ((Nesting.top.scan piece).depth + k)) joined)
      rw [hsplit] at hrest
      obtain ⟨hfirst, hothers⟩ := List.forall_mem_cons.1 hrest
      -- either the comma cuts, or the piece goes on into the next one
      rcases splitFrom_listSeparator_append hsplit with hcut | hjoin
      · rw [Text.splitFrom_append (hpiece.uncut_raise k)
          (by rw [hpiece.scan_raise]; exact hcut), List.append_nil]
        exact List.forall_mem_cons.2 ⟨hroot, List.forall_mem_cons.2
          ⟨List.infix_cons hfirst, hothers⟩⟩
      · rw [Text.splitFrom_append (hpiece.uncut_raise k)
          (by rw [hpiece.scan_raise]; exact hjoin)]
        exact List.forall_mem_cons.2
          ⟨hroot.trans (List.prefix_append ..).isInfix, hothers⟩

-- ====================================================== composition

/-- A text that closes what it opens, and has the root in each of its parts. -/
structure Anchored (root text : Text) : Prop where
  matched : Along Matched .top text
  closed : (Nesting.top.scan text).quoting = .outside
  parts : ∀ part ∈ text.splitTopLevel ',', root <:+: part

/-- Every part of an anchored list has the root in it. -/
theorem infix_of_mem_commaParts (htrimmed : Text.Trimmed root)
    (hne : root ≠ []) (h : Anchored root text) {part : Text}
    (hpart : part ∈ text.commaParts) : root <:+: part := by
  obtain ⟨hmem, -⟩ := List.mem_filter.1 hpart
  obtain ⟨raw, hraw, rfl⟩ := List.mem_map.1 hmem
  exact Text.infix_trim htrimmed hne (h.parts raw hraw)

theorem commaParts_ne_nil (htrimmed : Text.Trimmed root) (hne : root ≠ [])
    (h : Anchored root text) : text.commaParts ≠ [] := by
  obtain ⟨raw, others, heq⟩ :=
    List.exists_cons_of_ne_nil (Text.splitTopLevel_ne_nil ',' text)
  have hraw : raw ∈ text.splitTopLevel ',' := heq ▸ List.mem_cons_self ..
  have hfound := Text.infix_trim htrimmed hne (h.parts raw hraw)
  have htrim : raw.trim ≠ [] := by
    intro hnil
    rw [hnil] at hfound
    exact hne (List.infix_nil.1 hfound)
  have hmem : raw.trim ∈ text.commaParts :=
    List.mem_filter.2 ⟨List.mem_map_of_mem hraw, by simpa using htrim⟩
  exact List.ne_nil_of_mem hmem

/-- Composing with a sound fragment keeps the root in every part. -/
theorem Anchored.compose (htrimmed : Text.Trimmed root) (hne : root ≠ [])
    (h : Anchored root parent) (hsound : Sound fragment) :
    Anchored root (compose parent fragment) := by
  obtain ⟨hparts, hclosed, hmatched, hunquoted⟩ := hsound
  have hcompose : Selector.compose parent fragment
      = listSeparator.intercalate (parent.commaParts.flatMap fun p =>
          fragment.commaParts.map (Selector.nest p)) := by
    -- composing has its own case for a parent without a part
    unfold Selector.compose
    split
    · next hnil => exact absurd hnil (commaParts_ne_nil htrimmed hne h)
    · rfl
  have hpieces : ∀ piece ∈ parent.commaParts.flatMap fun p =>
      fragment.commaParts.map (Selector.nest p),
      Piece piece ∧ root <:+: piece := by
    intro piece hpiece
    obtain ⟨p, hp, hpiece⟩ := List.mem_flatMap.1 hpiece
    obtain ⟨c, hc, rfl⟩ := List.mem_map.1 hpiece
    obtain ⟨hpp, -⟩ := piece_of_mem_commaParts h.matched h.matched h.closed hp
    obtain ⟨hcp, hcu⟩ :=
      piece_of_mem_commaParts hmatched hunquoted hclosed hc
    exact ⟨hpp.nest hcp hcu,
      (infix_of_mem_commaParts htrimmed hne h hp).trans (infix_nest p c)⟩
  -- there is at least one pair to be nested
  have hsome : (parent.commaParts.flatMap fun p =>
      fragment.commaParts.map (Selector.nest p)) ≠ [] := by
    obtain ⟨p, ps, hp⟩ :=
      List.exists_cons_of_ne_nil (commaParts_ne_nil htrimmed hne h)
    obtain ⟨c, cs, hc⟩ := List.exists_cons_of_ne_nil hparts
    rw [hp, hc]
    exact List.cons_ne_nil _ _
  obtain ⟨hm, hq⟩ := along_matched_join (fun q hq => (hpieces q hq).1) 0
  rw [hcompose]
  exact ⟨hm, hq, infix_of_mem_splitFrom_join hsome hpieces 0⟩

/-- A text without quotes and brackets is read at the top throughout. -/
theorem along_of_plain {p : Nesting → Char → Prop}
    (hplain : ∀ c ∈ text, Nesting.isStructural c = false)
    (hp : ∀ c ∈ text, p .top c) :
    Along p .top text ∧ Nesting.top.scan text = .top := by
  induction text with
  | nil => exact ⟨trivial, rfl⟩
  | cons c rest ih =>
    obtain ⟨hc, hrest⟩ := List.forall_mem_cons.1 hplain
    obtain ⟨hpc, hprest⟩ := List.forall_mem_cons.1 hp
    rw [Nesting.along_cons, Nesting.scan_cons, Nesting.step_top hc]
    exact ⟨⟨hpc, (ih hrest hprest).1⟩, (ih hrest hprest).2⟩

/-- A plain root is anchored in itself, blanks around it aside. -/
theorem anchored_root (hroot : IsPlainRoot root) :
    Anchored root.trim root := by
  have hplain : ∀ c ∈ root, Nesting.isStructural c = false :=
    fun c hc => (hroot.2 c hc).2
  have hmatched : ∀ c ∈ root, Matched .top c := by
    intro c hc _ hclosing
    have hstruct := hplain c hc
    simp [Nesting.isStructural, hclosing] at hstruct
  have huncut : ∀ c ∈ root, Uncut (· == ',') .top c := by
    intro c hc
    simp [Uncut, Nesting.cutsAt, (hroot.2 c hc).1]
  refine ⟨(along_of_plain hplain hmatched).1, ?_, ?_⟩
  · rw [(along_of_plain hplain hmatched).2]
    rfl
  · rw [Text.splitTopLevel,
      Text.splitFrom_eq_singleton (along_of_plain hplain huncut).1]
    intro part hpart
    obtain ⟨lead, trail, -, -, heq⟩ := Text.exists_eq_append_trim root
    rw [List.mem_singleton.1 hpart]
    refine ⟨lead, trail, ?_⟩
    rw [List.append_assoc, ← heq]

/-- Below sound fragments, the selector at the end of a path is anchored. -/
theorem anchored_path {start : Text} (htrimmed : Text.Trimmed root)
    (hne : root ≠ []) (hstart : Anchored root start) (path : List Step)
    (hsound : ∀ fragment, Step.nested fragment ∈ path → Sound fragment) :
    Anchored root (Step.selector start path) := by
  induction path generalizing start with
  | nil => exact hstart
  | cons step path ih =>
    have hrest := fun fragment h => hsound fragment (List.mem_cons_of_mem _ h)
    cases step with
    | guarded query => exact ih hstart hrest
    | nested fragment =>
      have hfragment := hsound fragment (List.mem_cons_self ..)
      exact ih (hstart.compose htrimmed hne hfragment) hrest

/-- What is anchored stays below the root. -/
theorem Anchored.isScoped (htrimmed : Text.Trimmed root) (hne : root ≠ [])
    (h : Anchored root text) : IsScoped root text := by
  refine ⟨fun hnil => ?_, h.parts⟩
  have hblank := Text.trim_eq_nil_iff.1 hnil
  have hplain : ∀ c ∈ text, Nesting.isStructural c = false :=
    fun c hc => Nesting.isStructural_of_isBlank (hblank c hc)
  have huncut : ∀ c ∈ text, Uncut (· == ',') .top c := by
    intro c hc
    have hcomma : c ≠ ',' := by
      rintro rfl
      exact absurd (hblank _ hc) (by decide)
    simp [Uncut, Nesting.cutsAt, hcomma]
  -- a blank text is its own only part, and the root would be in it
  have hfound : root <:+: text := h.parts text (by
    rw [Text.splitTopLevel,
      Text.splitFrom_eq_singleton (along_of_plain hplain huncut).1]
    exact List.mem_singleton_self text)
  obtain ⟨c, rest, rfl⟩ := List.exists_cons_of_ne_nil hne
  have hc := hblank c (hfound.subset (List.mem_cons_self ..))
  rw [htrimmed.1 c rfl] at hc
  cases hc

end Selector

-- ============================================================ rules

/-- Rules stay under their root: each comes from an entry at the end of a path
of keys, and if the nested selectors on such a path are sound, the selector is
not blank and has the root in every part of its comma list. -/
theorem Style.report_stays_scoped (style : Style) (root : Text)
    (hroot : Selector.IsPlainRoot root) :
    ∀ rule ∈ (Style.report style root).rules,
      (∃ path, ∃ d ∈ rule.declarations,
        (path, .declared d) ∈ Style.findings style
          ∧ Step.guard none path = rule.guard
          ∧ Step.selector root path = rule.selector)
      ∧ ∀ path, Step.selector root path = rule.selector →
          (∀ fragment, Step.nested fragment ∈ path → Selector.Sound fragment) →
          Selector.IsScoped root.trim rule.selector := by
  intro rule hrule
  constructor
  · obtain ⟨d, others, heq⟩ := List.exists_cons_of_ne_nil
      (Style.declarations_ne_nil_of_mem_report hrule)
    have hd : d ∈ rule.declarations := heq ▸ List.mem_cons_self ..
    obtain ⟨path, hpath⟩ := Style.exists_path_of_mem_report hrule hd
    exact ⟨path, d, hd, hpath⟩
  · intro path hselector hsound
    have htrimmed := Text.trimmed_trim root
    rw [← hselector]
    exact (Selector.anchored_path htrimmed hroot.1
      (Selector.anchored_root hroot) path hsound).isScoped htrimmed hroot.1

/-- Two sound fragments inside of a condition. -/
theorem report_stays_scoped_below_hover :
    Selector.IsPlainRoot ".btn".toList
    ∧ (∀ fragment ∈ ["&:hover, &:focus".toList, ".dark &".toList],
        Selector.Sound fragment)
    ∧ ∀ rule ∈ (Style.report (Style.below ["@media print",
          "&:hover, &:focus", ".dark &"]) ".btn".toList).rules,
        Selector.IsScoped ".btn".toList rule.selector := by
  have hroot : Selector.IsPlainRoot ".btn".toList := by decide +kernel
  have hsound : ∀ fragment ∈ ["&:hover, &:focus".toList, ".dark &".toList],
      Selector.Sound fragment := by decide +kernel
  refine ⟨hroot, hsound, fun rule hrule => ?_⟩
  have hscoped := (Style.report_stays_scoped _ _ hroot rule hrule).2
    [.guarded ⟨.media, "print".toList⟩, .nested "&:hover, &:focus".toList,
      .nested ".dark &".toList]
  have hrules : (Style.report (Style.below ["@media print",
      "&:hover, &:focus", ".dark &"]) ".btn".toList).rules
      = [⟨some ⟨.media, "print".toList⟩,
          ".dark .btn:hover, .dark .btn:focus".toList,
          [⟨"color".toList, "red".toList⟩]⟩] := by decide +kernel
  rw [hrules, List.mem_singleton] at hrule
  subst hrule
  refine hscoped (by decide +kernel) fun fragment hmem => hsound fragment ?_
  simpa using hmem

/-- Each kind of unsound fragment loses the root, and so do blanks around it:
a fragment without parts leaves no selector at all, one that leaves a literal
open or asks for its parent inside of one has a comma come out of it, one that
closes a bracket of its parent has a comma come out of that, and composition
trims its parent. -/
theorem scope_lost_below_unsound_fragments :
    (∀ root ∈ [".r".toList, " .r ".toList], Selector.IsPlainRoot root)
    ∧ (∀ keys ∈ [[","], ["&a, &b", "\"x,y"], ["&[x=\"a,b\"]", "\"&\""],
          ["&)", ":is(&,b)"]],
        ∃ rule ∈ (Style.report (Style.below keys) ".r".toList).rules,
          ¬ Selector.IsScoped ".r".toList rule.selector)
    ∧ ∃ rule ∈ (Style.report (Style.below ["x"]) " .r ".toList).rules,
        ¬ Selector.IsScoped " .r ".toList rule.selector := by
  decide +kernel

end StyleTree
