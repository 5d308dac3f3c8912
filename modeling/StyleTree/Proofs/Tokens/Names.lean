/-
The names that tokens are declared by. Flattening spells the keys on the way to
a leaf, once and as their group asks for, so the name of a leaf is to be
declared as it is.

# The second spelling

But a declaration puts its property into kebab case, whoever it comes from.
Both ways of declaring tokens so spell the whole of a name again: the stem, the
keys that start with a digit, and what the spelling of the group has just kept
or made.

Putting into kebab case never takes a hyphen away and adds one for each upper
case letter, so what becomes of a name is seen by counting hyphens
(`count_hyphenate`), which blanks do not disturb. Names survive exactly if
there is no upper case letter among them (`token_names_survive_iff`); it is
enough that the spellings leave none (`map_property_themeDeclarations`), as
kebab case does of letters that have a small form
(`uncapitalized_spelled_kebab`).
-/
import StyleTree.Proofs.Tokens.Declared

namespace StyleTree

-- =========================================================== hyphens

/-- There is no upper case letter in the text. -/
def Uncapitalized (text : Text) : Prop := ∀ c ∈ text, lowerOfUpper? c = none

variable {text : Text}

theorem Uncapitalized.append {a b : Text} (ha : Uncapitalized a)
    (hb : Uncapitalized b) : Uncapitalized (a ++ b) :=
  List.forall_mem_append.2 ⟨ha, hb⟩

theorem Uncapitalized.hyphen_cons (h : Uncapitalized text) :
    Uncapitalized ('-' :: text) :=
  List.forall_mem_cons.2 ⟨by decide, h⟩

/-- A text without capital letters is left. -/
theorem hyphenate_of_uncapitalized (h : Uncapitalized text) :
    hyphenate text = text := by
  induction text with
  | nil => rfl
  | cons c rest ih =>
    obtain ⟨hc, hrest⟩ := List.forall_mem_cons.1 h
    rw [hyphenate_cons_of_eq_none hc, ih hrest]

/-- The hyphens stay, and there is one more for each upper case letter. -/
theorem count_hyphenate (text : Text) :
    text.count '-' + text.countP (fun c => (lowerOfUpper? c).isSome)
      ≤ (hyphenate text).count '-' := by
  induction text with
  | nil => exact Nat.le_refl 0
  | cons c rest ih =>
    cases hc : lowerOfUpper? c with
    | none =>
      rw [hyphenate_cons_of_eq_none hc, List.count_cons, List.count_cons,
        List.countP_cons_of_neg (by simp [hc])]
      omega
    | some lower =>
      have hother : c ≠ '-' := by
        rintro rfl
        rw [show lowerOfUpper? '-' = none by decide] at hc
        cases hc
      rw [hyphenate_cons_of_eq_some hc, List.count_cons_self,
        List.count_append,
        List.count_cons_of_ne hother, List.countP_cons_of_pos (by simp [hc])]
      omega

/-- Each capital letter costs a hyphen, so a text that gains none has none. -/
theorem uncapitalized_of_count_le
    (h : (hyphenate text).count '-' ≤ text.count '-') :
    Uncapitalized text := by
  have hcount := count_hyphenate text
  have hnone : text.countP (fun c => (lowerOfUpper? c).isSome) = 0 := by omega
  intro c hc
  simpa using List.countP_eq_zero.1 hnone c hc

/-- No capital letter is left, if none is left of a single one. -/
theorem uncapitalized_hyphenate
    (h : ∀ c ∈ text, ∀ lower ∈ lowerOfUpper? c, Uncapitalized lower) :
    Uncapitalized (hyphenate text) := by
  induction text with
  | nil => exact fun _ hc => absurd hc List.not_mem_nil
  | cons c rest ih =>
    obtain ⟨hc, hrest⟩ := List.forall_mem_cons.1 h
    cases hlower : lowerOfUpper? c with
    | none =>
      rw [hyphenate_cons_of_eq_none hlower]
      exact List.forall_mem_cons.2 ⟨hlower, ih hrest⟩
    | some lower =>
      rw [hyphenate_cons_of_eq_some hlower]
      exact ((hc lower hlower).append (ih hrest)).hyphen_cons

/-- No hyphen is trimmed away. -/
theorem Text.count_hyphen_trim (text : Text) :
    text.trim.count '-' = text.count '-' := by
  have hblanks {blanks : Text} (h : ∀ c ∈ blanks, isBlank c = true) :
      blanks.count '-' = 0 :=
    List.count_eq_zero.2 fun hmem => absurd (h _ hmem) (by decide)
  obtain ⟨lead, trail, hlead, htrail, heq⟩ := exists_eq_append_trim text
  conv_rhs => rw [heq]
  rw [List.count_append, List.count_append, hblanks hlead, hblanks htrail,
    Nat.zero_add, Nat.add_zero]

/-- Kebab case changes nothing exactly where there is no upper case letter. -/
theorem kebabCase_eq_self_iff :
    kebabCase text = text ↔ Uncapitalized text := by
  rw [kebabCase_eq_hyphenate]
  constructor
  · intro h
    exact uncapitalized_of_count_le (by rw [h])
  · exact hyphenate_of_uncapitalized

/-- A name is its own spelling exactly if it is trimmed and has no capital
letters. -/
theorem kebabCase_trim_eq_self_iff :
    kebabCase text.trim = text ↔ text.Trimmed ∧ Uncapitalized text := by
  constructor
  · intro h
    have hcount := congrArg (List.count '-') h
    rw [kebabCase_eq_hyphenate, ← Text.count_hyphen_trim text] at hcount
    have hlower := uncapitalized_of_count_le (Nat.le_of_eq hcount)
    have htrim : text.trim = text := by
      rwa [kebabCase_eq_self_iff.2 hlower] at h
    exact ⟨Text.trim_eq_self_iff.1 htrim, htrim ▸ hlower⟩
  · rintro ⟨htrimmed, hlower⟩
    rw [Text.trim_eq_self_iff.2 htrimmed, kebabCase_eq_self_iff.2 hlower]

namespace KeySpelling

variable {spelling : KeySpelling} {keys : List Text}

/-- A path has capitals only where one of its spelled keys has. -/
theorem uncapitalized_path
    (h : ∀ key ∈ keys, Uncapitalized (spelling.spelled key)) :
    Uncapitalized (spelling.path keys) := by
  induction keys with
  | nil => exact fun _ hc => absurd hc List.not_mem_nil
  | cons key keys ih =>
    obtain ⟨hkey, hkeys⟩ := List.forall_mem_cons.1 h
    by_cases hnil : keys = []
    · subst hnil
      unfold path
      rwa [List.map_cons, List.map_nil, List.intercalate_singleton]
    · rw [path_cons spelling key hnil]
      exact hkey.append (ih hkeys).hyphen_cons

/-- Kebab case leaves only what it has no small letters for. -/
theorem uncapitalized_spelled_kebab {key : Text}
    (hdigit : StartsWithDigit key → Uncapitalized key)
    (hsmall : ∀ c ∈ key, ∀ lower ∈ lowerOfUpper? c, Uncapitalized lower) :
    Uncapitalized (KeySpelling.kebab.spelled key) := by
  unfold spelled
  split
  · next h => exact hdigit h
  · exact uncapitalized_hyphenate hsmall

end KeySpelling

-- ============================================================= names

theorem map_eq_self_iff {α : Type} {f : α → α} {items : List α} :
    items.map f = items ↔ ∀ item ∈ items, f item = item := by
  conv_lhs => rhs; rw [← List.map_id items]
  exact List.map_inj_left

namespace TokenGroup

variable {groups : List TokenGroup}

/-- What tokens are declared as, by the rule for the root and by the theme
block: as their names in kebab case. These are the names themselves exactly if
none has an upper case letter and, for the root, a blank at an end. -/
theorem token_names_survive_iff (groups : List TokenGroup) :
    Sheet.compile .lenient (sheet groups)
      = .ok (blockText rootSelector (rootDeclarations groups))
    ∧ theme groups = blockText "@theme".toList (themeDeclarations groups)
    ∧ (rootDeclarations groups).map Declaration.property
      = (names groups).map (fun name => kebabCase name.trim)
    ∧ (themeDeclarations groups).map Declaration.property
      = (names groups).map kebabCase
    ∧ ((rootDeclarations groups).map Declaration.property = names groups
      ↔ ∀ name ∈ names groups, name.Trimmed ∧ Uncapitalized name)
    ∧ ((themeDeclarations groups).map Declaration.property = names groups
      ↔ ∀ name ∈ names groups, Uncapitalized name) := by
  have hroot := properties_declarationsBy groups Text.trim
  have htheme := properties_declarationsBy groups id
  rw [← rootDeclarations_eq] at hroot
  rw [← themeDeclarations_eq] at htheme
  refine ⟨compile_sheet groups, theme_eq groups, hroot, htheme, ?_, ?_⟩
  · rw [hroot, map_eq_self_iff]
    exact forall₂_congr fun _ _ => kebabCase_trim_eq_self_iff
  · rw [htheme, map_eq_self_iff]
    exact forall₂_congr fun _ _ => kebabCase_eq_self_iff

/-- The spelling that a group asks for is spelled over: a verbatim key, a key
that starts with a digit and so is kept, and what a formatter makes. -/
theorem token_names_are_respelled :
    let verbatim : TokenGroup :=
      ⟨[], [("fontSize".toList, .text "1rem".toList)], .verbatim⟩
    let digit : TokenGroup :=
      ⟨"size-".toList, [("2XL".toList, .text "24px".toList)], .kebab⟩
    let shout : TokenGroup :=
      ⟨[], [("sm".toList, .text "4px".toList)], .custom (·.map Char.toUpper)⟩
    let groups := [verbatim, digit, shout]
    names groups = ["--fontSize".toList, "--size-2XL".toList, "--SM".toList]
    ∧ Sheet.assemble .default (sheet groups)
      = .ok ":root\x7b--font-size:1rem;--size-2-x-l:24px;---s-m:4px\x7d".toList
    ∧ theme groups = ("@theme \x7b\n  --font-size: 1rem;\n"
      ++ "  --size-2-x-l: 24px;\n  ---s-m: 4px;\n\x7d").toList
    ∧ (rootDeclarations groups).map Declaration.property ≠ names groups
    ∧ (themeDeclarations groups).map Declaration.property ≠ names groups := by
  decide +kernel

-- ============================================== names that survive

/-- Names survive if no spelling leaves an upper case letter. -/
theorem map_property_themeDeclarations
    (h : ∀ group ∈ groups, Uncapitalized group.stem
      ∧ ∀ leaf ∈ Style.leaves group.tree, ∀ key ∈ leaf.1,
        Uncapitalized (group.spelling.spelled key)) :
    (themeDeclarations groups).map Declaration.property = names groups := by
  rw [themeDeclarations_eq, properties_declarationsBy, map_eq_self_iff]
  intro name hname
  obtain ⟨entry, hentry, rfl⟩ := List.mem_map.1 hname
  obtain ⟨group, hgroup, leaf, hleaf, rfl⟩ :=
    exists_leaf_of_mem (List.mem_filter.1 hentry).1
  obtain ⟨hstem, hkeys⟩ := h group hgroup
  have hpath := KeySpelling.uncapitalized_path (hkeys leaf hleaf)
  exact kebabCase_eq_self_iff.2 (hstem.append hpath).hyphen_cons.hyphen_cons

end TokenGroup

end StyleTree
