/-
The two blocks that tokens are declared in, side by side. The rule for the root
is made by the walk, which reads a key without the blanks around it and then
spells it; the theme block spells the key as it is. So they agree up to blanks
exactly if spelling and trimming may be exchanged (`kebabCase_trim`).

They may, because letters and blanks do not mix: no blank is an upper case
letter, and no small letter is a blank. Both are facts of the table of capital
runs, and are checked against the blanks one by one.
-/
import StyleTree.Proofs.Tokens.Names

namespace StyleTree

-- ================================================= blanks and letters

/-- The code points of the blanks. -/
def blankCodes : List Nat :=
  [0x9, 0xA, 0xB, 0xC, 0xD, 0x20, 0x85, 0xA0, 0x1680, 0x2000, 0x2001, 0x2002,
    0x2003, 0x2004, 0x2005, 0x2006, 0x2007, 0x2008, 0x2009, 0x200A, 0x2028,
    0x2029, 0x202F, 0x205F, 0x3000]

/-- The blanks are listed. -/
theorem toNat_mem_blankCodes {c : Char} (h : isBlank c = true) :
    c.toNat ∈ blankCodes := by
  simp only [isBlank, Bool.or_eq_true, Bool.and_eq_true, decide_eq_true_eq,
    beq_iff_eq] at h
  simp only [blankCodes, List.mem_cons, List.not_mem_nil, or_false]
  omega

/-- No blank is a capital letter. -/
theorem lowerOfUpper?_of_isBlank {c : Char} (h : isBlank c = true) :
    lowerOfUpper? c = none := by
  have hcodes : ∀ n ∈ blankCodes,
      CapitalRun.find? n CapitalRun.table = none := by
    decide +kernel
  have hdotted : c ≠ dottedCapitalI := by
    rintro rfl
    exact absurd h (by decide)
  unfold lowerOfUpper?
  rw [if_neg hdotted, hcodes _ (toNat_mem_blankCodes h)]
  rfl

theorem isBlank_ofNat {n : Nat} (h : isBlank (Char.ofNat n) = true) :
    n ∈ blankCodes := by
  have hcode := toNat_mem_blankCodes h
  unfold Char.ofNat at hcode
  by_cases hvalid : n.isValidChar
  · rw [dif_pos hvalid] at hcode
    exact hcode
  · rw [dif_neg hvalid] at hcode
    exact absurd hcode (by decide)

/-- The small letters of a run are between those of its ends, where no blank
is. -/
theorem isBlank_ofNat_shift {run : CapitalRun} (hrun : run ∈ CapitalRun.table)
    {n : Nat} (hcovers : run.covers n = true) :
    isBlank (Char.ofNat ((n : Int) + run.shift).toNat) = false := by
  have htable : ∀ run ∈ CapitalRun.table, ∀ code ∈ blankCodes,
      (code : Int) < run.first + run.shift ∨ run.last + run.shift < code := by
    decide +kernel
  simp only [CapitalRun.covers, Bool.and_eq_true, decide_eq_true_eq] at hcovers
  refine Bool.eq_false_iff.2 fun hblank => ?_
  have hcode := isBlank_ofNat hblank
  have hpos : ∀ code ∈ blankCodes, 0 < code := by decide
  have hlow := hpos _ hcode
  have hgap := htable run hrun _ hcode
  omega

/-- No capital letter becomes a blank. -/
theorem isBlank_lower {c : Char} {lower : Text}
    (h : lowerOfUpper? c = some lower) :
    ∀ d ∈ lower.getLast?, isBlank d = false := by
  unfold lowerOfUpper? at h
  split at h
  · cases h
    rintro d ⟨⟩
    decide
  · obtain ⟨run, hfound, rfl⟩ := Option.map_eq_some_iff.1 h
    obtain ⟨hrun, hcovers⟩ := CapitalRun.covers_of_find? hfound
    rintro d ⟨⟩
    exact isBlank_ofNat_shift hrun hcovers

-- =========================================== trimming and spelling

/-- Spelling puts no blank at an end. -/
theorem trimmed_hyphenate {text : Text} (h : text.Trimmed) :
    (hyphenate text).Trimmed := by
  constructor
  · cases text with
    | nil => exact h.1
    | cons c rest =>
      cases hc : lowerOfUpper? c with
      | none =>
        rw [hyphenate_cons_of_eq_none hc]
        exact h.1
      | some lower =>
        rw [hyphenate_cons_of_eq_some hc]
        rintro d ⟨⟩
        decide
  · rcases text.eq_nil_or_concat' with rfl | ⟨rest, c, rfl⟩
    · exact h.2
    · rw [hyphenate_append]
      cases hc : lowerOfUpper? c with
      | none =>
        rw [hyphenate_cons_of_eq_none hc]
        intro d hd
        exact h.2 d (by simpa [hyphenate] using hd)
      | some lower =>
        have hletter : hyphenate [c] = '-' :: lower := by
          rw [hyphenate_cons_of_eq_some hc]
          exact congrArg _ (List.append_nil lower)
        -- a capital letter ends in its lower case, or in the hyphen if it has
        -- none
        rw [hletter, List.getLast?_append, List.getLast?_cons, Option.some_or]
        rintro d ⟨⟩
        cases hlast : lower.getLast? with
        | none => decide
        | some e => exact isBlank_lower hc e hlast

/-- Blanks have no capital letters among them. -/
theorem uncapitalized_of_isBlank {text : Text}
    (h : ∀ c ∈ text, isBlank c = true) : Uncapitalized text :=
  fun c hc => lowerOfUpper?_of_isBlank (h c hc)

/-- A name may be trimmed before or after it is spelled. -/
theorem kebabCase_trim (text : Text) :
    (kebabCase text).trim = kebabCase text.trim := by
  obtain ⟨lead, trail, hlead, htrail, heq⟩ := Text.exists_eq_append_trim text
  have hspelled : hyphenate text = lead ++ (hyphenate text.trim ++ trail) := by
    conv_lhs => rw [heq]
    rw [hyphenate_append, hyphenate_append,
      hyphenate_of_uncapitalized (uncapitalized_of_isBlank hlead),
      hyphenate_of_uncapitalized (uncapitalized_of_isBlank htrail)]
  rw [kebabCase_eq_hyphenate, kebabCase_eq_hyphenate, hspelled,
    Text.trim_append (trimmed_hyphenate (Text.trimmed_trim text)) hlead htrail]

-- ======================================================== two blocks

/-- Declarations of trimmed names are the declarations with their names
trimmed. -/
theorem Style.declarationsBy_trim (entries : List (Text × Value)) :
    declarationsBy Text.trim entries
      = (declarationsBy id entries).map fun d =>
        ⟨d.property.trim, d.value⟩ := by
  unfold declarationsBy Declaration.ofEntry?
  rw [List.map_filterMap]
  refine List.filterMap_congr fun entry _ => ?_
  cases entry.2.css? with
  | none => rfl
  | some css =>
    show some (Declaration.mk _ css) = some (Declaration.mk _ css)
    rw [id, kebabCase_trim]

/-- Nothing is printed exactly if there is nothing to declare. -/
theorem blockText_eq_nil_iff {heading : Text}
    {declarations : List Declaration} :
    blockText heading declarations = [] ↔ declarations = [] := by
  cases declarations with
  | nil => exact ⟨fun _ => rfl, fun _ => rfl⟩
  | cons d ds =>
    have hne := blockText_cons_ne_nil heading d ds
    exact ⟨fun h => absurd h hne, fun h => nomatch h⟩

namespace TokenGroup

/-- The sheet of the tokens compiles to one rule for the root, unless nothing
is declared, and the rule declares what the theme block does, in the same
order: the same values under the same properties, from which the theme block
has not taken the blanks around them. -/
theorem theme_declares_root_tokens (groups : List TokenGroup) :
    Sheet.compile .lenient (sheet groups)
      = .ok (blockText rootSelector (rootDeclarations groups))
    ∧ Sheet.rules (sheet groups)
      = (if (rootDeclarations groups).isEmpty then []
        else [⟨none, rootSelector, rootDeclarations groups⟩])
    ∧ theme groups = blockText "@theme".toList (themeDeclarations groups)
    ∧ (themeDeclarations groups).map (fun d => (d.property.trim, d.value))
      = (rootDeclarations groups).map (fun d => (d.property, d.value))
    ∧ (theme groups = []
      ↔ Sheet.compile .lenient (sheet groups) = .ok []) := by
  have hroot := rootDeclarations_eq groups
  have htrim : rootDeclarations groups = (themeDeclarations groups).map
      fun d => ⟨d.property.trim, d.value⟩ := by
    rw [hroot, themeDeclarations_eq, Style.declarationsBy_trim]
  refine ⟨compile_sheet groups, ?_, theme_eq groups, ?_, ?_⟩
  · rw [rules_sheet, hroot]
    exact Style.rules_report_of_isCustomProperty _ isCustomProperty_of_mem
  · rw [htrim, List.map_map]
    rfl
  · rw [theme_eq, compile_sheet, Except.ok.injEq, blockText_eq_nil_iff,
      blockText_eq_nil_iff, htrim, List.map_eq_nil_iff]

end TokenGroup

end StyleTree
