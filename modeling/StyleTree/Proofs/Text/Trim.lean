/-
What trimming leaves. A text is its trimmed form between two runs of blanks
(`exists_eq_append_trim`), and the trimmed form neither starts nor ends with
one. `Trimmed` is that second property, and it is exactly what trimming does
not change (`trim_eq_self_iff`). Collapsing the spaces of a text leaves nothing
where trimming does (`collapseSpaces_eq_nil_iff`).
-/
import StyleTree.Text.Blank

namespace StyleTree

namespace Text

variable {a text : Text}

-- ========================================= the blanks at both ends

/-- What is cut off at the start is blank. -/
theorem exists_eq_append_trimStart (text : Text) :
    ∃ lead, (∀ c ∈ lead, isBlank c = true) ∧ text = lead ++ trimStart text :=
  ⟨text.takeWhile isBlank, List.all_eq_true.1 List.all_takeWhile,
    List.takeWhile_append_dropWhile.symm⟩

/-- If something is left behind a character, the character is left. -/
theorem trimEnd_cons_of_ne_nil (c : Char) (h : trimEnd text ≠ []) :
    trimEnd (c :: text) = c :: trimEnd text := by
  rw [trimEnd]
  cases hrest : trimEnd text with
  | nil => exact absurd hrest h
  | cons d rest => rfl

/-- If nothing is left behind a character, it is left unless it is blank. -/
theorem trimEnd_cons_of_eq_nil (c : Char) (h : trimEnd text = []) :
    trimEnd (c :: text) = if isBlank c = true then [] else [c] := by
  rw [trimEnd, h]

/-- What is cut off at the end is blank. -/
theorem exists_eq_trimEnd_append (text : Text) :
    ∃ trail, (∀ c ∈ trail, isBlank c = true)
      ∧ text = trimEnd text ++ trail := by
  induction text with
  | nil => exact ⟨[], by simp⟩
  | cons c rest ih =>
    by_cases hnil : trimEnd rest = []
    · have hrest := trimEnd_eq_nil_iff.1 hnil
      rw [trimEnd_cons_of_eq_nil c hnil]
      by_cases hc : isBlank c = true
      · rw [if_pos hc]
        exact ⟨c :: rest, List.forall_mem_cons.2 ⟨hc, hrest⟩, rfl⟩
      · rw [if_neg hc]
        exact ⟨rest, hrest, rfl⟩
    · obtain ⟨trail, hblank, heq⟩ := ih
      refine ⟨trail, hblank, ?_⟩
      rw [trimEnd_cons_of_ne_nil c hnil, List.cons_append, ← heq]

/-- A text is its trimmed form between two runs of blanks. -/
theorem exists_eq_append_trim (text : Text) :
    ∃ lead trail, (∀ c ∈ lead, isBlank c = true)
      ∧ (∀ c ∈ trail, isBlank c = true)
        ∧ text = lead ++ (trim text ++ trail) := by
  obtain ⟨lead, hlead, hstart⟩ := exists_eq_append_trimStart text
  obtain ⟨trail, htrail, hend⟩ := exists_eq_trimEnd_append (trimStart text)
  exact ⟨lead, trail, hlead, htrail, by
    rw [show trim text = trimEnd (trimStart text) from rfl, ← hend]
    exact hstart⟩

/-- A text is trimmed away exactly when it is blank. -/
theorem trim_eq_nil_iff : trim text = [] ↔ ∀ c ∈ text, isBlank c = true := by
  constructor
  · intro h
    obtain ⟨lead, trail, hlead, htrail, heq⟩ := exists_eq_append_trim text
    rw [h, List.nil_append] at heq
    rw [heq]
    exact fun c hc => (List.mem_append.1 hc).elim (hlead c) (htrail c)
  · intro h
    exact trimEnd_eq_nil_iff.2 fun c hc =>
      h c (List.dropWhile_suffix _ |>.subset hc)

-- ================================================== trimmed texts

/-- There is no blank at either end. -/
def Trimmed (text : Text) : Prop :=
  (∀ c ∈ text.head?, isBlank c = false)
    ∧ ∀ c ∈ text.getLast?, isBlank c = false

instance (text : Text) : Decidable text.Trimmed :=
  @instDecidableAnd _ _ (Option.decidableForallMem _)
    (Option.decidableForallMem _)

theorem trimmed_nil : Trimmed [] := ⟨by simp, by simp⟩

/-- A text starts with no blank once its leading blanks are gone. -/
theorem isBlank_head?_trimStart :
    ∀ c ∈ (trimStart text).head?, isBlank c = false := by
  intro c hc
  have h := List.head?_dropWhile_not isBlank text
  rw [show (List.dropWhile isBlank text).head? = some c from hc] at h
  exact h

/-- A text that was trimmed ends with no blank. -/
theorem isBlank_getLast?_trimEnd :
    ∀ c ∈ (trimEnd text).getLast?, isBlank c = false := by
  induction text with
  | nil => simp
  | cons d rest ih =>
    by_cases hnil : trimEnd rest = []
    · rw [trimEnd_cons_of_eq_nil d hnil]
      split
      · simp
      · next hd => simpa using hd
    · rw [trimEnd_cons_of_ne_nil d hnil, List.getLast?_cons_of_ne_nil hnil]
      exact ih

/-- Trimming the end brings no other character to the front. -/
theorem head?_trimEnd {c : Char} (h : c ∈ (trimEnd text).head?) :
    c ∈ text.head? := by
  obtain ⟨trail, -, heq⟩ := exists_eq_trimEnd_append text
  rw [heq, List.head?_append, Option.mem_def.1 h]
  rfl

/-- Trimming leaves no blank at either end. -/
theorem trimmed_trim (text : Text) : Trimmed (trim text) :=
  ⟨fun _ hc => isBlank_head?_trimStart _ (head?_trimEnd hc),
    isBlank_getLast?_trimEnd⟩

theorem trimStart_eq_self (h : ∀ c ∈ text.head?, isBlank c = false) :
    trimStart text = text := by
  cases text with
  | nil => rfl
  | cons c rest => rw [trimStart_cons, if_neg (by simpa using h c rfl)]

theorem trimEnd_eq_self (h : ∀ c ∈ text.getLast?, isBlank c = false) :
    trimEnd text = text := by
  induction text with
  | nil => rfl
  | cons c rest ih =>
    cases rest with
    | nil =>
      have hc := h c rfl
      rw [trimEnd_cons_of_eq_nil c rfl, if_neg (by simpa using hc)]
    | cons d rest =>
      have hrest := ih fun e he => h e (by rwa [List.getLast?_cons_cons])
      rw [trimEnd_cons_of_ne_nil c
        (by rw [hrest]; exact List.cons_ne_nil d rest),
        hrest]

/-- Trimming changes nothing exactly where there is nothing to trim. -/
theorem trim_eq_self_iff : trim text = text ↔ Trimmed text := by
  constructor
  · intro h
    rw [← h]
    exact trimmed_trim text
  · rintro ⟨hhead, hlast⟩
    unfold trim
    rw [trimStart_eq_self hhead, trimEnd_eq_self hlast]

theorem trim_trim (text : Text) : trim (trim text) = trim text :=
  trim_eq_self_iff.2 (trimmed_trim text)

/-- Blanks behind a text are trimmed away. -/
theorem trimEnd_append {trail : Text} (text : Text)
    (htrail : ∀ c ∈ trail, isBlank c = true) :
    trimEnd (text ++ trail) = trimEnd text := by
  induction text with
  | nil => exact trimEnd_eq_nil_iff.2 htrail
  | cons c rest ih => rw [List.cons_append, trimEnd, ih, trimEnd]

/-- Blanks around a trimmed text are what trimming takes away. -/
theorem trim_append {lead trail : Text} (htext : Trimmed text)
    (hlead : ∀ c ∈ lead, isBlank c = true)
    (htrail : ∀ c ∈ trail, isBlank c = true) :
    trim (lead ++ (text ++ trail)) = text := by
  have hstart : trimStart (lead ++ (text ++ trail))
      = trimStart (text ++ trail) :=
    List.dropWhile_append_of_pos hlead
  unfold trim
  rw [hstart]
  cases text with
  | nil => exact trim_eq_nil_iff.2 htrail
  | cons c rest =>
    have hhead : trimStart (c :: rest ++ trail) = c :: rest ++ trail :=
      trimStart_eq_self htext.1
    rw [hhead, trimEnd_append _ htrail, trimEnd_eq_self htext.2]

/-- What starts with no blank keeps its first character. -/
theorem exists_trim_cons {c : Char} (hc : isBlank c = false) (rest : Text) :
    ∃ kept, trim (c :: rest) = c :: kept := by
  have hstart : trimStart (c :: rest) = c :: rest := by
    rw [trimStart_cons, if_neg (by simp [hc])]
  unfold trim
  rw [hstart]
  by_cases hnil : trimEnd rest = []
  · rw [trimEnd_cons_of_eq_nil c hnil, if_neg (by simp [hc])]
    exact ⟨[], rfl⟩
  · rw [trimEnd_cons_of_ne_nil c hnil]
    exact ⟨_, rfl⟩

/-- The first character of a trimmed text is the first one that is not
blank. -/
theorem head?_trim (text : Text) :
    (trim text).head? = (trimStart text).head? := by
  have hplain : ∀ c ∈ (trimStart text).head?, isBlank c = false :=
    isBlank_head?_trimStart
  cases hstart : trimStart text with
  | nil =>
    unfold trim
    rw [hstart]
    rfl
  | cons c rest =>
    rw [hstart] at hplain
    obtain ⟨kept, hkept⟩ := exists_trim_cons (hplain c rfl) rest
    unfold trim at hkept ⊢
    rw [trimStart_eq_self hplain] at hkept
    rw [hstart, hkept]
    rfl

-- ======================================================= lower case

/-- Lowering a character moves the code points of `A` to `Z` and no others. -/
theorem toNat_toLower (c : Char) : c.toLower.toNat
    = if 65 ≤ c.toNat ∧ c.toNat ≤ 90 then c.toNat + 32 else c.toNat := by
  delta Char.toLower
  simp only [Char.toNat, Char.reduceVal, ge_iff_le, UInt32.le_iff_toNat_le,
    UInt32.reduceToNat]
  split
  · show (c.val + 32).toNat = _
    rw [UInt32.toNat_add]
    have hstep : (32 : UInt32).toNat = 32 := rfl
    omega
  · rfl

/-- No letter is blank, so it makes no difference to lower one. -/
theorem isBlank_toLower (c : Char) : isBlank c.toLower = isBlank c := by
  unfold isBlank
  rw [toNat_toLower]
  split
  · rw [Bool.eq_iff_iff]
    simp only [Bool.or_eq_true, Bool.and_eq_true, decide_eq_true_eq,
      beq_iff_eq]
    omega
  · rfl

/-- Trimming and lowering may be exchanged. -/
theorem trimEnd_map_toLower (text : Text) :
    trimEnd (text.map Char.toLower) = (trimEnd text).map Char.toLower := by
  induction text with
  | nil => rfl
  | cons c rest ih =>
    rw [List.map_cons, trimEnd, trimEnd, ih, isBlank_toLower]
    cases trimEnd rest with
    | nil =>
      simp only [List.map_nil]
      split <;> rfl
    | cons d kept => rfl

-- ====================================================== joined parts

theorem prefix_intercalate_cons (separator first : Text) (others : List Text) :
    first <+: separator.intercalate (first :: others) := by
  cases others with
  | nil => exact ⟨[], by rw [List.intercalate_singleton, List.append_nil]⟩
  | cons second others =>
    refine ⟨separator ++ separator.intercalate (second :: others), ?_⟩
    rw [List.intercalate_cons_cons, List.append_assoc]

/-- Joined parts are something where the first of them is. -/
theorem intercalate_cons_ne_nil {first : Text} (h : first ≠ [])
    (separator : Text) (others : List Text) :
    separator.intercalate (first :: others) ≠ [] := by
  have hprefix := prefix_intercalate_cons separator first others
  intro hnil
  rw [hnil] at hprefix
  exact h (List.prefix_nil.1 hprefix)

theorem intercalate_cons_of_ne_nil {others : List Text} (h : others ≠ [])
    (separator first : Text) : separator.intercalate (first :: others)
      = first ++ separator ++ separator.intercalate others := by
  obtain ⟨second, others, rfl⟩ := List.exists_cons_of_ne_nil h
  exact List.intercalate_cons_cons

/-- Each of the joined parts is in the text. -/
theorem infix_intercalate {part : Text} {parts : List Text} (h : part ∈ parts)
    (separator : Text) : part <:+: separator.intercalate parts := by
  induction parts with
  | nil => cases h
  | cons first others ih =>
    rcases List.mem_cons.1 h with rfl | hothers
    · exact (prefix_intercalate_cons separator part others).isInfix
    · rw [intercalate_cons_of_ne_nil (List.ne_nil_of_mem hothers)]
      exact (ih hothers).trans (List.suffix_append ..).isInfix

theorem intercalate_append {parts others : List Text} (h : parts ≠ [])
    (hothers : others ≠ []) (separator : Text) :
    separator.intercalate (parts ++ others) = separator.intercalate parts
      ++ separator ++ separator.intercalate others := by
  induction parts with
  | nil => exact absurd rfl h
  | cons first rest ih =>
    cases rest with
    | nil =>
      rw [List.singleton_append, intercalate_cons_of_ne_nil hothers,
        List.intercalate_singleton]
    | cons second rest =>
      rw [List.cons_append, intercalate_cons_of_ne_nil (by simp),
        ih (List.cons_ne_nil second rest), List.intercalate_cons_cons]
      simp only [List.append_assoc]

/-- Only the ends of two texts decide whether they are trimmed together. -/
theorem trimmed_append (ha : Trimmed a) (hne : a ≠ []) (htext : Trimmed text)
    (hne' : text ≠ []) (between : Text) : Trimmed (a ++ between ++ text) := by
  constructor
  · intro c hc
    obtain ⟨d, rest, rfl⟩ := List.exists_cons_of_ne_nil hne
    exact ha.1 c hc
  · intro c hc
    rw [List.getLast?_append, List.getLast?_eq_some_getLast hne'] at hc
    exact htext.2 c (by rwa [List.getLast?_eq_some_getLast hne'])

/-- Trimmed texts are trimmed when they are joined. -/
theorem trimmed_intercalate {parts : List Text} (separator : Text)
    (h : ∀ part ∈ parts, Trimmed part ∧ part ≠ []) :
    Trimmed (separator.intercalate parts) := by
  induction parts with
  | nil => exact trimmed_nil
  | cons part rest ih =>
    obtain ⟨⟨hpart, hne⟩, hrest⟩ := List.forall_mem_cons.1 h
    cases rest with
    | nil => rwa [List.intercalate_singleton]
    | cons next rest =>
      rw [List.intercalate_cons_cons]
      have hnext := (hrest next (List.mem_cons_self ..)).2
      exact trimmed_append hpart hne (ih hrest)
        (intercalate_cons_ne_nil hnext separator rest) separator

-- ============================================ what trimming keeps

/-- What starts with no blank is not cut into by trimming the start. -/
theorem infix_trimStart (hhead : ∀ c ∈ a.head?, isBlank c = false)
    (hne : a ≠ []) (h : a <:+: text) : a <:+: trimStart text := by
  induction text with
  | nil => exact h
  | cons c rest ih =>
    rw [trimStart_cons]
    split
    · next hc =>
      rcases List.infix_cons_iff.1 h with hprefix | hrest
      · obtain ⟨d, a, rfl⟩ := List.exists_cons_of_ne_nil hne
        have hd : d = c := (List.cons_prefix_cons.1 hprefix).1
        have hblank := hhead d rfl
        rw [hd, hc] at hblank
        cases hblank
      · exact ih hrest
    · exact h

/-- What ends with no blank is not cut into by trimming the end. -/
theorem prefix_trimEnd (hlast : ∀ c ∈ a.getLast?, isBlank c = false)
    (h : a <+: text) : a <+: trimEnd text := by
  induction text generalizing a with
  | nil => exact h
  | cons c rest ih =>
    cases a with
    | nil => exact List.nil_prefix
    | cons d a =>
      obtain ⟨rfl, hrest⟩ := List.cons_prefix_cons.1 h
      by_cases ha : a = []
      · subst ha
        have hd := hlast d rfl
        by_cases hnil : trimEnd rest = []
        · have hkept : trimEnd (d :: rest) = [d] := by
            rw [trimEnd_cons_of_eq_nil d hnil, if_neg (by simpa using hd)]
          exact hkept.symm ▸ List.prefix_rfl
        · rw [trimEnd_cons_of_ne_nil d hnil]
          exact List.cons_prefix_cons.2 ⟨rfl, List.nil_prefix⟩
      · have hkeep := ih (fun e he => hlast e
          (by rwa [List.getLast?_cons_of_ne_nil ha])) hrest
        have hnil : trimEnd rest ≠ [] := by
          intro hnil
          rw [hnil] at hkeep
          exact ha (List.prefix_nil.1 hkeep)
        rw [trimEnd_cons_of_ne_nil d hnil]
        exact List.cons_prefix_cons.2 ⟨rfl, hkeep⟩

/-- Nor is it where it stands further in. -/
theorem infix_trimEnd (hlast : ∀ c ∈ a.getLast?, isBlank c = false)
    (hne : a ≠ []) (h : a <:+: text) : a <:+: trimEnd text := by
  induction text with
  | nil => exact h
  | cons c rest ih =>
    rcases List.infix_cons_iff.1 h with hprefix | hrest
    · exact (prefix_trimEnd hlast hprefix).isInfix
    · have hkeep := ih hrest
      have hnil : trimEnd rest ≠ [] := by
        intro hnil
        rw [hnil] at hkeep
        exact hne (List.infix_nil.1 hkeep)
      rw [trimEnd_cons_of_ne_nil c hnil]
      exact List.infix_cons hkeep

/-- A text without blanks at its ends is found in a text exactly where it is
found in the trimmed text. -/
theorem infix_trim (ha : Trimmed a) (hne : a ≠ []) (h : a <:+: text) :
    a <:+: trim text :=
  infix_trimEnd ha.2 hne (infix_trimStart ha.1 hne h)

-- ========================================================== words

theorem words_cons_of_isBlank {c : Char} (hc : isBlank c = true)
    (rest : Text) :
    words (c :: rest) = words rest := by
  unfold words
  rw [List.splitOnP_cons_eq_if_modifyHead, if_pos hc]
  rfl

theorem words_cons_ne_nil {c : Char} (hc : isBlank c = false) (rest : Text) :
    words (c :: rest) ≠ [] := by
  obtain ⟨first, others, hsplit⟩ :=
    List.exists_cons_of_ne_nil (List.splitOnP_ne_nil isBlank rest)
  unfold words
  rw [List.splitOnP_cons_eq_if_modifyHead, if_neg (by simp [hc]), hsplit]
  exact List.cons_ne_nil _ _

/-- There are no words exactly if everything is blank. -/
theorem words_eq_nil_iff : words text = [] ↔ ∀ c ∈ text, isBlank c = true := by
  induction text with
  | nil => simp [words]
  | cons c rest ih =>
    rw [List.forall_mem_cons]
    cases hc : isBlank c with
    | true => rw [words_cons_of_isBlank hc, ih]; simp
    | false => simp [words_cons_ne_nil hc]

theorem ne_nil_of_mem_words {word : Text} (h : word ∈ words text) :
    word ≠ [] := by
  simpa using (List.mem_filter.1 h).2

/-- Collapsing spaces leaves nothing exactly of a blank text. -/
theorem collapseSpaces_eq_nil_iff :
    collapseSpaces text = [] ↔ ∀ c ∈ text, isBlank c = true := by
  rw [← words_eq_nil_iff]
  unfold collapseSpaces
  cases hwords : words text with
  | nil => simp
  | cons first others =>
    have hfirst : first ≠ [] :=
      ne_nil_of_mem_words (hwords ▸ List.mem_cons_self ..)
    simp [intercalate_cons_ne_nil hfirst]

end Text

end StyleTree
