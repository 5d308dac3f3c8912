/-
Texts that collapsing their spaces does not change. They are trimmed, no two
blanks in them stand side by side, and each blank is a space (`Neat`,
`collapseSpaces_eq_self_iff`). Whatever is cut out of such a text and trimmed
is one again (`SingleSpaced.of_infix`), and two that are not empty can be
joined by a space.

A comma list is another matter, because its members may have blanks of their
own at their ends. A blank at the end of a member stands in front of a comma,
where it may; a blank at its start comes to stand behind that of the separator
(`neat_intercalate_iff`).
-/
import Mathlib.Data.List.Chain
import StyleTree.Proofs.Text.Trim

namespace StyleTree.Text

variable {a b text : Text}

-- =============================================== one space at a time

/-- No two blanks stand side by side, and each of them is a space. -/
structure SingleSpaced (text : Text) : Prop where
  spaces : ∀ c ∈ text, isBlank c = true → c = ' '
  apart : text.IsChain fun c d => isBlank c = true → isBlank d = false

instance (text : Text) : Decidable (SingleSpaced text) :=
  @decidable_of_iff _ (_ ∧ _)
    ⟨fun ⟨hspaces, hapart⟩ => ⟨hspaces, hapart⟩, fun h => ⟨h.spaces, h.apart⟩⟩
    (@instDecidableAnd _ _ (List.decidableBAll _ text) inferInstance)

/-- A text without blanks is single-spaced. -/
theorem singleSpaced_of_word (h : ∀ c ∈ text, isBlank c = false) :
    SingleSpaced text where
  spaces c hc hblank := by
    rw [h c hc] at hblank
    cases hblank
  apart := List.Pairwise.isChain
    (List.pairwise_of_forall_mem_list fun _ _ d hd _ => h d hd)

/-- Two texts together are single-spaced if both are and no two blanks meet. -/
theorem singleSpaced_append : SingleSpaced (a ++ b)
    ↔ SingleSpaced a ∧ SingleSpaced b ∧ ∀ c ∈ a.getLast?, ∀ d ∈ b.head?,
      isBlank c = true → isBlank d = false := by
  constructor
  · rintro ⟨hspaces, hapart⟩
    obtain ⟨ha, hb⟩ := List.forall_mem_append.1 hspaces
    obtain ⟨hapart, hapart', hmeet⟩ := List.isChain_append.1 hapart
    exact ⟨⟨ha, hapart⟩, ⟨hb, hapart'⟩, hmeet⟩
  · rintro ⟨ha, hb, hmeet⟩
    exact ⟨List.forall_mem_append.2 ⟨ha.spaces, hb.spaces⟩,
      List.isChain_append.2 ⟨ha.apart, hb.apart, hmeet⟩⟩

/-- Single-spaced texts can be joined if one of them has no blank where they
meet. -/
theorem SingleSpaced.append (ha : SingleSpaced a) (hb : SingleSpaced b)
    (hmeet : (∀ c ∈ a.getLast?, isBlank c = false)
      ∨ ∀ d ∈ b.head?, isBlank d = false) : SingleSpaced (a ++ b) := by
  refine singleSpaced_append.2 ⟨ha, hb, fun c hc d hd hblank => ?_⟩
  rcases hmeet with hend | hstart
  · rw [hend c hc] at hblank
    cases hblank
  · exact hstart d hd

/-- Every part of a single-spaced text is single-spaced. -/
theorem SingleSpaced.of_infix (h : SingleSpaced text) (ha : a <:+: text) :
    SingleSpaced a := by
  obtain ⟨before, after, rfl⟩ := ha
  exact (singleSpaced_append.1 (singleSpaced_append.1 h).1).2.1

theorem SingleSpaced.tail {c : Char} (h : SingleSpaced (c :: text)) :
    SingleSpaced text :=
  h.of_infix (List.suffix_cons c text).isInfix

/-- Single-spaced, and without a blank at either end. -/
structure Neat (text : Text) : Prop where
  trimmed : Trimmed text
  spaced : SingleSpaced text

instance (text : Text) : Decidable (Neat text) :=
  decidable_of_iff (Trimmed text ∧ SingleSpaced text)
    ⟨fun ⟨htrimmed, hspaced⟩ => ⟨htrimmed, hspaced⟩,
      fun h => ⟨h.trimmed, h.spaced⟩⟩

theorem neat_nil : Neat [] := by decide

theorem neat_of_word (h : ∀ c ∈ text, isBlank c = false) : Neat text where
  trimmed := ⟨fun c hc => h c (List.mem_of_mem_head? hc),
    fun c hc => h c (List.mem_of_mem_getLast? hc)⟩
  spaced := singleSpaced_of_word h

/-- A single-spaced text is neat once it is trimmed. -/
theorem SingleSpaced.neat_trim (h : SingleSpaced text) : Neat text.trim := by
  obtain ⟨lead, trail, -, -, heq⟩ := exists_eq_append_trim text
  refine ⟨trimmed_trim text, h.of_infix ⟨lead, trail, ?_⟩⟩
  rw [List.append_assoc, ← heq]

/-- Neat texts are joined by a space. -/
theorem Neat.append_space (ha : Neat a) (hne : a ≠ []) (hb : Neat b)
    (hne' : b ≠ []) : Neat (a ++ [' '] ++ b) where
  trimmed := trimmed_append ha.trimmed hne hb.trimmed hne' [' ']
  spaced := by
    have hspace : SingleSpaced [' '] := by decide
    have hfront : SingleSpaced (a ++ [' ']) :=
      ha.spaced.append hspace (.inl ha.trimmed.2)
    exact hfront.append hb.spaced (.inr hb.trimmed.1)

/-- Neat texts with single spaces between them make a neat one. -/
theorem neat_intercalate_space {parts : List Text}
    (h : ∀ part ∈ parts, Neat part ∧ part ≠ []) :
    Neat ([' '].intercalate parts) := by
  induction parts with
  | nil => exact neat_nil
  | cons part others ih =>
    obtain ⟨⟨hpart, hne⟩, hothers⟩ := List.forall_mem_cons.1 h
    cases others with
    | nil => rwa [List.intercalate_singleton]
    | cons next others =>
      rw [List.intercalate_cons_cons]
      exact hpart.append_space hne (ih hothers) (intercalate_cons_ne_nil
        (hothers next (List.mem_cons_self ..)).2 _ _)

-- ======================================================= collapsing

/-- A blank in front leaves nothing behind. -/
theorem collapseSpaces_cons_of_isBlank {c : Char} (hc : isBlank c = true)
    (rest : Text) : collapseSpaces (c :: rest) = collapseSpaces rest := by
  unfold collapseSpaces
  rw [words_cons_of_isBlank hc]

/-- A character that is not blank joins the word behind it, if it stands right
in front of one, and is a word of its own otherwise. -/
theorem words_cons_of_not_isBlank {c : Char} (hc : isBlank c = false)
    (rest : Text) :
    words (c :: rest) = if rest.head?.all isBlank = true
      then [c] :: words rest else (words rest).modifyHead (c :: ·) := by
  unfold words
  rw [List.splitOnP_cons_eq_if_modifyHead, if_neg (by simp [hc])]
  cases rest with
  | nil => rfl
  | cons d rest =>
    obtain ⟨first, others, hsplit⟩ :=
      List.exists_cons_of_ne_nil (List.splitOnP_ne_nil isBlank rest)
    rw [List.splitOnP_cons_eq_if_modifyHead, hsplit]
    cases hd : isBlank d <;> simp [hd]

/-- No word has a blank in it. -/
theorem isBlank_of_mem_words {word : Text} (h : word ∈ words text) :
    ∀ c ∈ word, isBlank c = false := by
  induction text generalizing word with
  | nil => cases h
  | cons d rest ih =>
    cases hd : isBlank d with
    | true =>
      rw [words_cons_of_isBlank hd] at h
      exact ih h
    | false =>
      rw [words_cons_of_not_isBlank hd] at h
      split at h
      · rcases List.mem_cons.1 h with rfl | hrest
        · exact List.forall_mem_singleton.2 hd
        · exact ih hrest
      · cases hwords : words rest with
        | nil =>
          rw [hwords] at h
          cases h
        | cons first others =>
          rw [hwords] at h ih
          rcases List.mem_cons.1 h with rfl | hothers
          · exact List.forall_mem_cons.2 ⟨hd, ih (List.mem_cons_self ..)⟩
          · exact ih (List.mem_cons_of_mem _ hothers)

/-- What has been collapsed is neat. -/
theorem neat_collapseSpaces (text : Text) : Neat (collapseSpaces text) :=
  neat_intercalate_space fun _ hword =>
    ⟨neat_of_word (isBlank_of_mem_words hword), ne_nil_of_mem_words hword⟩

/-- A character in front of the first text is in front of all of them. -/
theorem intercalate_modifyHead_cons (c : Char) {parts : List Text}
    (h : parts ≠ []) (separator : Text) :
    separator.intercalate (parts.modifyHead (c :: ·))
      = c :: separator.intercalate parts := by
  obtain ⟨first, others, rfl⟩ := List.exists_cons_of_ne_nil h
  cases others with
  | nil => rfl
  | cons next others =>
    rw [List.modifyHead_cons, List.intercalate_cons_cons,
      List.intercalate_cons_cons]
    rfl

/-- Of a single-spaced text without a blank at its end, collapsing takes no
more than the blank at its start. -/
theorem collapseSpaces_eq_trimStart (h : SingleSpaced text)
    (hlast : ∀ c ∈ text.getLast?, isBlank c = false) :
    collapseSpaces text = trimStart text := by
  induction text with
  | nil => rfl
  | cons c rest ih =>
    cases rest with
    | nil =>
      have hc := hlast c rfl
      rw [trimStart_cons, if_neg (by simp [hc]), collapseSpaces,
        words_cons_of_not_isBlank hc]
      rfl
    | cons d tail =>
      have hend : ∀ e ∈ (d :: tail).getLast?, isBlank e = false :=
        fun e he => hlast e (by rwa [List.getLast?_cons_cons])
      have hcollapsed := ih h.tail hend
      cases hc : isBlank c with
      | true =>
        rw [trimStart_cons, if_pos hc, collapseSpaces_cons_of_isBlank hc,
          hcollapsed]
      | false =>
        -- the last character is no blank, so there are more words
        have hwords : words (d :: tail) ≠ [] := by
          intro hnone
          have hne := List.cons_ne_nil d tail
          have hkept := hend _ (List.getLast?_eq_some_getLast hne)
          rw [words_eq_nil_iff.1 hnone _ (List.getLast_mem hne)] at hkept
          cases hkept
        rw [trimStart_cons, if_neg (by simp [hc]), collapseSpaces,
          words_cons_of_not_isBlank hc]
        cases hd : isBlank d with
        | true =>
          -- a space ends the word, and the next one starts right behind it
          have hspace := h.spaces d (by simp) hd
          have htail : trimStart tail = tail := trimStart_eq_self fun e he =>
            (List.isChain_cons.1 h.tail.apart).1 e he hd
          rw [if_pos (by simp [hd]), intercalate_cons_of_ne_nil hwords]
          show [c] ++ [' '] ++ collapseSpaces (d :: tail) = _
          rw [hcollapsed, trimStart_cons, if_pos hd, htail, hspace]
          rfl
        | false =>
          rw [if_neg (by simp [hd]), intercalate_modifyHead_cons c hwords]
          show c :: collapseSpaces (d :: tail) = _
          rw [hcollapsed, trimStart_cons, if_neg (by simp [hd])]

/-- Collapsing the spaces changes every text but a neat one. -/
theorem collapseSpaces_eq_self_iff :
    collapseSpaces text = text ↔ Neat text := by
  constructor
  · intro h
    rw [← h]
    exact neat_collapseSpaces text
  · rintro ⟨htrimmed, hspaced⟩
    rw [collapseSpaces_eq_trimStart hspaced htrimmed.2,
      trimStart_eq_self htrimmed.1]

-- ====================================================== comma lists

/-- A member is followed by others: its end is in front of the comma, and its
start may be that of the list. -/
theorem neat_append_comma_iff (ha : SingleSpaced a) (hne : a ≠ [])
    (hne' : b ≠ []) : Neat (a ++ ", ".toList ++ b)
      ↔ (∀ c ∈ a.head?, isBlank c = false) ∧ Neat b := by
  have hhead : (a ++ ", ".toList ++ b).head? = a.head? := by
    obtain ⟨c, rest, rfl⟩ := List.exists_cons_of_ne_nil hne
    rfl
  have hlast : (a ++ ", ".toList ++ b).getLast? = b.getLast? := by
    rw [List.getLast?_append, List.getLast?_eq_some_getLast hne',
      Option.some_or]
  have hcomma : SingleSpaced ", ".toList := by decide
  -- the space of the comma must not meet another one
  have hspaced : SingleSpaced (a ++ ", ".toList ++ b)
      ↔ SingleSpaced b ∧ ∀ c ∈ b.head?, isBlank c = false := by
    constructor
    · intro h
      obtain ⟨-, hb, hmeet⟩ := singleSpaced_append.1 h
      refine ⟨hb, fun c hc => hmeet ' ' ?_ c hc rfl⟩
      rw [List.getLast?_append]
      rfl
    · rintro ⟨hb, hstart⟩
      have hfront : SingleSpaced (a ++ ", ".toList) :=
        ha.append hcomma (.inr (by rintro d ⟨⟩; decide))
      exact hfront.append hb (.inr hstart)
  constructor
  · rintro ⟨⟨hstart, hend⟩, h⟩
    rw [hhead] at hstart
    rw [hlast] at hend
    obtain ⟨hb, hstart'⟩ := hspaced.1 h
    exact ⟨hstart, ⟨hstart', hend⟩, hb⟩
  · rintro ⟨hstart, ⟨hstart', hend⟩, hb⟩
    refine ⟨⟨?_, ?_⟩, hspaced.2 ⟨hb, hstart'⟩⟩
    · rwa [hhead]
    · rwa [hlast]

/-- A list of single-spaced members is neat if none of them starts with a blank
and the last one does not end with one. -/
theorem neat_intercalate_iff {parts : List Text} (hne : parts ≠ [])
    (h : ∀ part ∈ parts, SingleSpaced part ∧ part ≠ []) :
    Neat (", ".toList.intercalate parts)
      ↔ (∀ part ∈ parts, ∀ c ∈ part.head?, isBlank c = false)
        ∧ ∀ last ∈ parts.getLast?, ∀ c ∈ last.getLast?, isBlank c = false := by
  induction parts with
  | nil => exact absurd rfl hne
  | cons part others ih =>
    obtain ⟨⟨hpart, hnil⟩, hothers⟩ := List.forall_mem_cons.1 h
    cases others with
    | nil =>
      rw [List.intercalate_singleton, List.forall_mem_singleton]
      constructor
      · rintro ⟨⟨hstart, hend⟩, -⟩
        refine ⟨hstart, fun last hlast => ?_⟩
        cases hlast
        exact hend
      · rintro ⟨hstart, hend⟩
        exact ⟨⟨hstart, hend part rfl⟩, hpart⟩
    | cons next others =>
      have hjoined : ", ".toList.intercalate (next :: others) ≠ [] :=
        intercalate_cons_ne_nil (hothers next (List.mem_cons_self ..)).2 _ _
      rw [List.intercalate_cons_cons, neat_append_comma_iff hpart hnil hjoined,
        ih (List.cons_ne_nil _ _) hothers, List.forall_mem_cons (a := part),
        and_assoc, List.getLast?_cons_cons]

end StyleTree.Text
