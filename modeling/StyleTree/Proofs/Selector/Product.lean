/-
Chains of selector fragments. A fragment is put under a parent by substitution
in the text, and the result is cut into parts again where the next fragment is
put under it. For parts that are complete, each of the cuts finds the parts
that were put in, so a chain of fragments comes to the product of all the
lists: every parent with every choice of one part of each fragment
(`compose_chain_eq_product`).

The invariant is `ListsComplete`, and one part put under another keeps it
(`Complete.nest`). Where the parent is substituted, the scan is outside of
literals, and as the parent ends where it began, it is there again behind it,
at whatever depth (`Complete.scan_replace`).
-/
import StyleTree.Proofs.Text.CommaList
import StyleTree.Proofs.Walk.Scope

namespace StyleTree.Selector

open Nesting (Along Matched)
open Text (IsListOf Trimmed Unbroken)

variable {text parent child fragment : Text}
  {parts parents children : List Text}

-- ===================================================== complete parts

/-- A part of a selector list in full. It has no blank at its ends, it ends
outside of literals and brackets and closes none that it has not opened, and it
has no comma on its top level. -/
structure Complete (text : Text) : Prop where
  trimmed : text.Trimmed
  ne_nil : text ≠ []
  matched : Along Matched .top text
  unbroken : Unbroken ',' text

instance (text : Text) : Decidable (Complete text) :=
  decidable_of_iff (text.Trimmed ∧ text ≠ [] ∧ Along Matched .top text
      ∧ Unbroken ',' text)
    ⟨fun ⟨htrimmed, hne, hmatched, hunbroken⟩ =>
        ⟨htrimmed, hne, hmatched, hunbroken⟩,
      fun h => ⟨h.trimmed, h.ne_nil, h.matched, h.unbroken⟩⟩

/-- A part that asks for its parent only outside of literals. -/
def Substitutable (text : Text) : Prop :=
  Complete text ∧ Along Unquoted .top text

instance (text : Text) : Decidable (Substitutable text) :=
  inferInstanceAs (Decidable (_ ∧ _))

/-- The text is a comma list of complete parts. -/
def ListsComplete (text : Text) (parts : List Text) : Prop :=
  IsListOf text parts ∧ ∀ part ∈ parts, Complete part

/-- The text is a comma list of substitutable parts. -/
def ListsSubstitutable (text : Text) (parts : List Text) : Prop :=
  IsListOf text parts ∧ ∀ part ∈ parts, Substitutable part

/-- A complete text is a piece. -/
theorem Complete.piece (h : Complete text) : Piece text :=
  ⟨h.matched, h.unbroken.1, by rw [h.unbroken.2]; rfl⟩

/-- Outside of literals only the depth is left of a state. -/
theorem eq_raise_of_outside {state : Nesting}
    (hout : state.quoting = .outside) :
    state = Nesting.top.raise state.depth := by
  obtain ⟨quoting, depth⟩ := state
  obtain rfl : quoting = .outside := hout
  simp [Nesting.raise, Nesting.top]

/-- Outside of literals a complete part is passed by, at any depth. -/
theorem Complete.scan_eq_self (h : Complete text) {state : Nesting}
    (hout : state.quoting = .outside) : state.scan text = state := by
  rw [eq_raise_of_outside hout, Nesting.scan_raise _ h.matched, h.unbroken.2]

-- ======================================================= substitution

/-- In place of its markers a parent leaves the scan of its child as it is. -/
theorem Complete.scan_replace (hparent : Complete parent) {state : Nesting}
    (hq : Along Unquoted state child) :
    state.scan (child.replace '&' parent) = state.scan child := by
  induction child generalizing state with
  | nil => rfl
  | cons c rest ih =>
    have hreplace : Text.replace (c :: rest) '&' parent
        = (if c = '&' then parent else [c])
          ++ Text.replace rest '&' parent := rfl
    rw [hreplace, Nesting.scan_append, Nesting.scan_cons]
    by_cases hc : c = '&'
    · have hout := hq.1 hc
      have hstep : state.step c = state :=
        Nesting.step_of_not_isStructural (by rw [hc]; rfl) hout
      rw [if_pos hc, hparent.scan_eq_self hout, hstep]
      exact ih (hstep ▸ hq.2)
    · rw [if_neg hc]
      exact ih hq.2

/-- A text that has its markers replaced starts and ends with characters of its
own or with those of the substitute. -/
theorem trimmed_replace (hparent : parent.Trimmed) (hne : parent ≠ [])
    (hchild : child.Trimmed) : (child.replace '&' parent).Trimmed := by
  have hpiece {c : Char} (hc : isBlank c = false) :
      Trimmed (Text.replace [c] '&' parent)
        ∧ Text.replace [c] '&' parent ≠ [] := by
    have hreplace : Text.replace [c] '&' parent
        = if c = '&' then parent else [c] := List.append_nil _
    rw [hreplace]
    split
    · exact ⟨hparent, hne⟩
    · refine ⟨⟨fun d hd => ?_, fun d hd => ?_⟩, List.cons_ne_nil _ _⟩
      · cases hd
        exact hc
      · cases hd
        exact hc
  cases child with
  | nil => exact Text.trimmed_nil
  | cons first rest =>
    obtain ⟨hfirst, hfirstNe⟩ := hpiece (hchild.1 first rfl)
    -- only the first and the last character matter
    rcases List.eq_nil_or_concat rest with rfl | ⟨middle, last, rfl⟩
    · exact hfirst
    · have hsplit : first :: middle.concat last
          = [first] ++ middle ++ [last] := by
        simp
      rw [hsplit] at hchild ⊢
      obtain ⟨hlast, hlastNe⟩ := hpiece (hchild.2 last List.getLast?_concat)
      rw [Text.replace_append, Text.replace_append]
      exact Text.trimmed_append hfirst hfirstNe hlast hlastNe _

/-- Something is left of a fragment when its `&` are replaced. -/
theorem replace_ne_nil (hne : parent ≠ []) (hchild : child ≠ []) :
    child.replace '&' parent ≠ [] := by
  obtain ⟨c, rest, rfl⟩ := List.exists_cons_of_ne_nil hchild
  rw [Text.replace, List.flatMap_cons]
  apply List.append_ne_nil_of_left_ne_nil
  split
  · exact hne
  · exact List.cons_ne_nil _ _

/-- Two parts, with something between that is no part of either. -/
theorem trimmed_join (hparent : Complete parent) (hchild : Complete child)
    (between : Text) : Trimmed (parent ++ between ++ child)
      ∧ parent ++ between ++ child ≠ [] :=
  ⟨Text.trimmed_append hparent.trimmed hparent.ne_nil hchild.trimmed
      hchild.ne_nil between,
    List.append_ne_nil_of_right_ne_nil _ hchild.ne_nil⟩

/-- One part put under another is one part. -/
theorem Complete.nest (hparent : Complete parent)
    (hchild : Substitutable child) :
    Complete (Selector.nest parent child) := by
  obtain ⟨hchild, hunquoted⟩ := hchild
  have hpiece := hparent.piece.nest hchild.piece hunquoted
  have hends : (Selector.nest parent child).Trimmed
      ∧ Selector.nest parent child ≠ []
      ∧ Nesting.top.scan (Selector.nest parent child) = .top := by
    unfold Selector.nest
    split
    · rw [hparent.scan_replace hunquoted]
      exact ⟨trimmed_replace hparent.trimmed hparent.ne_nil hchild.trimmed,
        replace_ne_nil hparent.ne_nil hchild.ne_nil, hchild.unbroken.2⟩
    · split
      · -- a text that is put behind the parent, without a space or with one
        next rest _ =>
        obtain ⟨htrimmed, hne⟩ := trimmed_join hparent hchild []
        rw [List.append_nil] at htrimmed hne
        refine ⟨htrimmed, hne, ?_⟩
        rw [Nesting.scan_append, hparent.unbroken.2, hchild.unbroken.2]
      · obtain ⟨htrimmed, hne⟩ := trimmed_join hparent hchild [' ']
        rw [List.append_assoc, List.singleton_append] at htrimmed hne
        refine ⟨htrimmed, hne, ?_⟩
        rw [Nesting.scan_append, hparent.unbroken.2, Nesting.scan_cons,
          Nesting.step_top (by decide), hchild.unbroken.2]
  exact ⟨hends.1, hends.2.1, hpiece.matched, hpiece.uncut, hends.2.2⟩

-- ============================================================= chains

/-- Composing two lists multiplies them out, and what comes of it is a list
again. -/
theorem ListsComplete.compose (hparent : ListsComplete parent parents)
    (hchild : ListsSubstitutable fragment children) :
    ListsComplete (Selector.compose parent fragment)
      (multiply Selector.nest parents children) := by
  obtain ⟨hparent, hparents⟩ := hparent
  obtain ⟨hchild, hchildren⟩ := hchild
  have hcompose : Selector.compose parent fragment
      = listSeparator.intercalate
        (multiply Selector.nest parents children) := by
    -- composing has its own case for a parent without a part
    unfold Selector.compose
    rw [hparent.commaParts fun part hpart => (hparents part hpart).ne_nil,
      hchild.commaParts fun part hpart => (hchildren part hpart).1.ne_nil]
    cases parents with
    | nil => exact absurd rfl hparent.ne_nil
    | cons => rfl
  have hproduct : ∀ part ∈ multiply Selector.nest parents children,
      Complete part := by
    intro part hpart
    obtain ⟨p, hp, c, hc, rfl⟩ := mem_multiply.1 hpart
    exact (hparents p hp).nest (hchildren c hc)
  have hne : multiply Selector.nest parents children ≠ [] :=
    multiply_ne_nil _ hparent.ne_nil hchild.ne_nil
  rw [hcompose]
  exact ⟨Text.isListOf_intercalate hne fun part hpart =>
    ⟨(hproduct part hpart).trimmed, (hproduct part hpart).unbroken⟩, hproduct⟩

/-- A chain of fragments is the product of their lists: every parent with one
part of each fragment, in lexicographic order, the parent varying slowest. -/
theorem compose_chain_eq_product {root : Text} {fragments : List Text}
    {lists : List (List Text)} (hroot : ListsComplete root parents)
    (hfragments : List.Forall₂ ListsSubstitutable fragments lists) :
    let composed :=
      ((fragments.foldl compose root).splitTopLevel ',').map Text.trim
    composed
        = (parents.flatMap fun p =>
            (choices lists).map fun chosen => chosen.foldl nest p)
      ∧ composed.length = parents.length * (lists.map List.length).prod := by
  intro composed
  have hlist := foldl_of_step (fun hp hc => hp.compose hc) hroot hfragments
  have heq : composed = _ := hlist.1.split
  refine ⟨heq, ?_⟩
  rw [heq]
  simp [length_choices, List.map_const', List.sum_replicate]

/-- Parents with commas in a literal and in brackets, under fragments of each
kind. -/
theorem compose_chain_eq_product_tabs :
    let root := "[data-x=\"a,b\"] ,:is(.a, .b)".toList
    let parents := ["[data-x=\"a,b\"]".toList, ":is(.a, .b)".toList]
    let fragments := ["&:not(&, .c),> li".toList, ":hover".toList]
    let lists := [["&:not(&, .c)".toList, "> li".toList], [":hover".toList]]
    ListsComplete root parents
    ∧ List.Forall₂ ListsSubstitutable fragments lists
    ∧ ((fragments.foldl compose root).splitTopLevel ',').map Text.trim
      = ["[data-x=\"a,b\"]:not([data-x=\"a,b\"], .c):hover".toList,
        "[data-x=\"a,b\"] > li:hover".toList,
        ":is(.a, .b):not(:is(.a, .b), .c):hover".toList,
        ":is(.a, .b) > li:hover".toList] := by
  intro root parents fragments lists
  have hroot : ListsComplete root parents :=
    ⟨⟨⟨["[data-x=\"a,b\"] ".toList, ":is(.a, .b)".toList],
      by decide +kernel⟩, by decide +kernel⟩, by decide +kernel⟩
  have hfirst : ListsSubstitutable "&:not(&, .c),> li".toList
      ["&:not(&, .c)".toList, "> li".toList] :=
    ⟨⟨⟨["&:not(&, .c)".toList, "> li".toList],
      by decide +kernel⟩, by decide +kernel⟩, by decide +kernel⟩
  have hsecond : ListsSubstitutable ":hover".toList [":hover".toList] :=
    ⟨⟨⟨[":hover".toList], by decide +kernel⟩, by decide +kernel⟩,
      by decide +kernel⟩
  have hfragments : List.Forall₂ ListsSubstitutable fragments lists :=
    .cons hfirst (.cons hsecond .nil)
  refine ⟨hroot, hfragments, ?_⟩
  obtain ⟨heq, -⟩ := compose_chain_eq_product hroot hfragments
  refine heq.trans ?_
  decide +kernel

end StyleTree.Selector
