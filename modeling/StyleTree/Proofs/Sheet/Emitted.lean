/-
The rules of a sheet: what its entries emit, in order. The lenient compiler
refuses no entry, so the text of a sheet is that of its rules and nothing else
(`Sheet.assemble_default`).

The selectors of a sheet do not start with a blank. A root is trimmed or starts
with a dot, and composition starts with its parent or with the fragment, which
are trimmed where they are cut out of a list.
-/
import StyleTree.Assemble
import StyleTree.Proofs.Text.Trim
import StyleTree.Proofs.Walk.Placement

namespace StyleTree

namespace Sheet

/-- The selector of an entry and the style object that is compiled under it. -/
def target? (selector : Text) (style : Style) : Option (Text × Style) :=
  match selector with
  | '.' :: name =>
    let own := Style.ofClass name style
    (Style.classSelector? own).map fun root => (root, own)
  | _ => if selector.trim.isEmpty then none else some (selector.trim, style)

/-- What is wrong with an entry that has no usable selector. -/
def unusable (selector : Text) : CompileError :=
  if selector.head? = some '.' then .missingClassName else .emptySelector

/-- The rules that the walk emits for an entry. -/
def rulesOfEntry (entry : Text × Style) : List Rule :=
  match target? entry.1 entry.2 with
  | some (root, style) => (Style.report style root).rules
  | none => []

/-- All emitted rules, in order. -/
def rules (sheet : Sheet) : List Rule := sheet.flatMap rulesOfEntry

-- ========================================================== their text

/-- An entry for a class is compiled below the class that its style names. -/
theorem target?_class (name : Text) (style : Style) :
    target? ('.' :: name) style
      = (Style.classSelector? (Style.ofClass name style)).map fun root =>
          (root, Style.ofClass name style) := rfl

/-- Any other entry is compiled below its own selector, if that is not
blank. -/
theorem target?_of_head?_ne {selector : Text} (h : selector.head? ≠ some '.')
    (style : Style) :
    target? selector style
      = if selector.trim.isEmpty then none
        else some (selector.trim, style) := by
  unfold target?
  split
  · exact absurd rfl h
  · rfl

/-- An entry without a target is refused. -/
theorem compileEntry_eq (strictness : Strictness) (selector : Text)
    (style : Style) :
    compileEntry strictness selector style
      = match target? selector style with
        | some (root, own) => Style.compile strictness own root
        | none => (unusable selector).refuse strictness := by
  by_cases hdot : selector.head? = some '.'
  · obtain ⟨name, rfl⟩ := List.head?_eq_some_iff.1 hdot
    rw [target?_class]
    show Style.compileClass strictness (Style.ofClass name style) = _
    unfold Style.compileClass
    cases Style.classSelector? (Style.ofClass name style) <;> rfl
  · have hcompile : compileEntry strictness selector style
        = Style.compileSelector strictness style selector := by
      unfold compileEntry
      split
      · exact absurd rfl hdot
      · rfl
    rw [target?_of_head?_ne hdot, hcompile,
      show unusable selector = .emptySelector from if_neg hdot]
    unfold Style.compileSelector
    by_cases hblank : selector.trim.isEmpty = true
    · rw [if_pos hblank, if_pos hblank]
    · rw [if_neg hblank, if_neg hblank]

/-- A lenient run compiles every entry, to the rules that come of it. -/
theorem compileEntry_lenient (entry : Text × Style) :
    ∃ skipped, compileEntry .lenient entry.1 entry.2
      = .ok ⟨Rule.sheetText (rulesOfEntry entry), skipped⟩ := by
  rw [compileEntry_eq]
  unfold rulesOfEntry
  split
  · next root own _ =>
    rw [Style.compile_lenient]
    exact ⟨_, rfl⟩
  · exact ⟨[], rfl⟩

theorem compileAll_lenient (sheet : Sheet) :
    compileAll .lenient sheet
      = .ok (sheet.map fun entry => Rule.sheetText (rulesOfEntry entry)) := by
  induction sheet with
  | nil => rfl
  | cons entry rest ih =>
    obtain ⟨skipped, hentry⟩ := compileEntry_lenient entry
    rw [compileAll, hentry, ih]
    rfl

/-- The readable text of a sheet; no entry is refused. -/
theorem compile_lenient (sheet : Sheet) :
    compile .lenient sheet
      = .ok (blankLine.intercalate
          ((sheet.map fun entry => Rule.sheetText (rulesOfEntry entry)).filter
            (!·.isEmpty))) := by
  unfold compile
  rw [compileAll_lenient]
  rfl

/-- What a sheet is assembled to unless something else is asked for. -/
theorem assemble_default (sheet : Sheet) :
    assemble .default sheet
      = .ok (Css.dedupe (Css.collapse (blankLine.intercalate
          ((sheet.map fun entry => Rule.sheetText (rulesOfEntry entry)).filter
            (!·.isEmpty))))) := by
  unfold assemble
  rw [show AssembleOptions.default.strictness = .lenient from rfl,
    compile_lenient]
  rfl

end Sheet

-- ====================================================== their selectors

namespace Text

/-- The first character is not blank. -/
def StartsPlain (text : Text) : Prop :=
  ∃ c rest, text = c :: rest ∧ isBlank c = false

/-- The start of a text is not changed by what stands behind it. -/
theorem StartsPlain.append {a : Text} (h : StartsPlain a) (b : Text) :
    StartsPlain (a ++ b) := by
  obtain ⟨c, rest, rfl, hc⟩ := h
  exact ⟨c, rest ++ b, rfl, hc⟩

/-- A trimmed text starts with no blank. -/
theorem startsPlain_of_trimmed {text : Text} (h : text.Trimmed)
    (hne : text ≠ []) : StartsPlain text := by
  obtain ⟨c, rest, rfl⟩ := List.exists_cons_of_ne_nil hne
  exact ⟨c, rest, rfl, h.1 c rfl⟩

/-- Neither does a part of a list. -/
theorem startsPlain_of_mem_commaParts {part text : Text}
    (h : part ∈ text.commaParts) : StartsPlain part := by
  obtain ⟨hmem, hne⟩ := List.mem_filter.1 h
  obtain ⟨raw, -, rfl⟩ := List.mem_map.1 hmem
  exact startsPlain_of_trimmed (trimmed_trim raw) (by simpa using hne)

/-- A list of parts starts with its first part. -/
theorem startsPlain_intercalate {parts : List Text} (separator : Text)
    (h : ∀ part ∈ parts, StartsPlain part) :
    separator.intercalate parts = []
      ∨ StartsPlain (separator.intercalate parts) := by
  cases parts with
  | nil => exact .inl rfl
  | cons first others =>
    have hfirst := h first (List.mem_cons_self ..)
    cases others with
    | nil =>
      rw [List.intercalate_singleton]
      exact .inr hfirst
    | cons second others =>
      rw [List.intercalate_cons_cons, List.append_assoc]
      exact .inr (hfirst.append _)

end Text

namespace Selector

open Text (StartsPlain)

variable {parent child : Text}

/-- A nested selector starts as its parent or as its child does. -/
theorem startsPlain_nest (hparent : StartsPlain parent)
    (hchild : StartsPlain child) : StartsPlain (nest parent child) := by
  unfold nest
  split
  · obtain ⟨c, rest, rfl, hc⟩ := hchild
    rw [Text.replace, List.flatMap_cons]
    split
    · exact hparent.append _
    · exact ⟨c, _, rfl, hc⟩
  · split
    · exact hparent.append _
    · exact hparent.append _

/-- A composed selector is empty or starts with no blank. -/
theorem startsPlain_compose (parent fragment : Text) :
    compose parent fragment = [] ∨ StartsPlain (compose parent fragment) := by
  unfold compose
  split
  · exact Text.startsPlain_intercalate _ fun part hpart =>
      Text.startsPlain_of_mem_commaParts hpart
  · refine Text.startsPlain_intercalate _ fun part hpart => ?_
    obtain ⟨p, hp, hpart⟩ := List.mem_flatMap.1 hpart
    obtain ⟨c, hc, rfl⟩ := List.mem_map.1 hpart
    exact startsPlain_nest (Text.startsPlain_of_mem_commaParts hp)
      (Text.startsPlain_of_mem_commaParts hc)

theorem startsPlain_path {root : Text} (hroot : root = [] ∨ StartsPlain root)
    (path : List Step) :
    Step.selector root path = [] ∨ StartsPlain (Step.selector root path) := by
  induction path generalizing root with
  | nil => exact hroot
  | cons step path ih =>
    cases step with
    | guarded query => exact ih hroot
    | nested fragment => exact ih (startsPlain_compose root fragment)

theorem startsPlain_ofClassName? {value : Value} {root : Text}
    (h : ofClassName? value = some root) : root = [] ∨ StartsPlain root := by
  unfold ofClassName? at h
  dsimp only at h
  split at h
  · cases h
  · cases h
    refine Text.startsPlain_intercalate _ fun part hpart => ?_
    obtain ⟨name, -, rfl⟩ := List.mem_map.1 hpart
    unfold ofClass
    split
    · exact ⟨_, _, rfl, by decide⟩
    · exact ⟨_, _, rfl, by decide⟩

end Selector

namespace Sheet

/-- The root of every target is empty or starts with no blank. -/
theorem startsPlain_target {selector root : Text} {style own : Style}
    (h : target? selector style = some (root, own)) :
    root = [] ∨ Text.StartsPlain root := by
  unfold target? at h
  split at h
  · next name =>
    obtain ⟨root', hroot, heq⟩ := Option.map_eq_some_iff.1 h
    obtain ⟨value, -, hvalue⟩ := Option.bind_eq_some_iff.1 hroot
    cases heq
    exact Selector.startsPlain_ofClassName? hvalue
  · split at h
    · cases h
    · next hne =>
      cases h
      exact .inr (Text.startsPlain_of_trimmed (Text.trimmed_trim selector)
        (by simpa using hne))

variable {sheet : Sheet} {rule : Rule}

/-- Every rule of a sheet comes from a report below such a root. -/
theorem exists_report_of_mem_rules (h : rule ∈ rules sheet) :
    ∃ root style, (root = [] ∨ Text.StartsPlain root)
      ∧ rule ∈ (Style.report style root).rules := by
  obtain ⟨entry, -, hrule⟩ := List.mem_flatMap.1 h
  unfold rulesOfEntry at hrule
  split at hrule
  · next root style htarget =>
    exact ⟨root, style, startsPlain_target htarget, hrule⟩
  · cases hrule

/-- Every emitted rule has a declaration and a selector that does not start
with a blank. -/
theorem of_mem_rules (h : rule ∈ rules sheet) :
    rule.declarations ≠ [] ∧ rule.selector.trimStart = rule.selector := by
  obtain ⟨root, style, hroot, hrule⟩ := exists_report_of_mem_rules h
  have hne := Style.declarations_ne_nil_of_mem_report hrule
  obtain ⟨d, hd⟩ := List.exists_mem_of_ne_nil _ hne
  obtain ⟨path, -, -, hselector⟩ := Style.exists_path_of_mem_report hrule hd
  refine ⟨hne, Text.trimStart_eq_self fun c hc => ?_⟩
  rw [← hselector] at hc
  rcases Selector.startsPlain_path hroot path
    with hnil | ⟨d, rest, heq, hplain⟩
  · rw [hnil] at hc
    cases hc
  · rw [heq] at hc
    cases hc
    exact hplain

end Sheet

end StyleTree
