/-
What is declared of tokens. Both ways of declaring them print one block with
the declarations of all custom properties (`TokenGroup.compile_sheet`,
`TokenGroup.theme_eq`). The keys of these start with a hyphen, so they are
properties and nothing else, and none of their values is null or an object.

The two blocks differ in how the keys are read: the walk through the sheet
drops the blanks around them, the theme takes them as they are. So both are
instances of `Style.declarationsBy`.
-/
import StyleTree.Proofs.Sheet.Emitted
import StyleTree.Proofs.Tokens.Leaves
import StyleTree.Theme

namespace StyleTree

-- ====================================================== custom properties

/-- An entry that is declared and nothing else, as custom properties are. -/
def IsCustomProperty (entry : Text × Value) : Prop :=
  (∃ path, entry.1 = '-' :: path) ∧ entry.2.IsPlain

/-- Every entry that a group is flattened to is a custom property. -/
theorem TokenGroup.isCustomProperty_of_mem {groups : List TokenGroup} :
    ∀ entry ∈ flattenAll groups, IsCustomProperty entry := by
  intro entry hentry
  obtain ⟨group, -, leaf, hleaf, rfl⟩ := exists_leaf_of_mem hentry
  exact ⟨⟨_, rfl⟩, (Style.mem_leaves_iff.1 hleaf).2⟩

/-- A key that starts with a hyphen is a name. -/
theorem Role.ofKey_of_hyphen (path : Text) :
    Role.ofKey ('-' :: path) = .name (Text.trim ('-' :: path)) := by
  obtain ⟨kept, hkept⟩ := Text.exists_trim_cons (c := '-') (by decide) path
  have hclass : '-' :: path ≠ classNameKey :=
    ne_classNameKey (by simp [hkept])
  exact ofKey_eq_of_isOf ⟨rfl, hclass, by simp [hkept], by simp [hkept]⟩

/-- A custom property is declared if it has words, and rejected otherwise. -/
theorem Item.ofEntry_of_isCustomProperty {entry : Text × Value}
    (h : IsCustomProperty entry) :
    Item.ofEntry entry = [(Declaration.ofEntry? entry.1.trim entry.2).elim
      (.rejected entry.1 .invalidValue) .declaration] := by
  obtain ⟨key, value⟩ := entry
  obtain ⟨⟨path, rfl⟩, hnull, hobject⟩ := h
  have hplain : Item.ofEntry ('-' :: path, value)
      = Item.ofPlain ('-' :: path) value := by
    rw [Item.ofEntry]
    cases value with
    | null => cases hnull
    | object body => cases hobject
    | _ => rfl
  rw [hplain, Item.ofPlain, Role.ofKey_of_hyphen]
  cases hd : Declaration.ofEntry? (Text.trim ('-' :: path)) value <;> simp [hd]

/-- The declarations of some entries, the keys of which are read in a way. -/
def Style.declarationsBy (read : Text → Text) (entries : List (Text × Value)) :
    List Declaration :=
  entries.filterMap fun entry => Declaration.ofEntry? (read entry.1) entry.2

/-- Custom properties leave nothing to be nested. -/
theorem Level.ofItems_of_isCustomProperty (selector : Text)
    (guard : Option Query)
    {entries : List (Text × Value)}
    (h : ∀ entry ∈ entries, IsCustomProperty entry) :
    ∃ rejected, Level.ofItems selector guard (Item.ofStyle entries)
      = ⟨Style.declarationsBy Text.trim entries, rejected, .empty,
        .empty⟩ := by
  unfold Style.declarationsBy
  induction entries with
  | nil => exact ⟨[], rfl⟩
  | cons entry rest ih =>
    obtain ⟨hentry, hrest⟩ := List.forall_mem_cons.1 h
    obtain ⟨rejected, hlevel⟩ := ih hrest
    rw [Item.ofStyle, Item.ofEntry_of_isCustomProperty hentry,
      List.filterMap_cons]
    cases Declaration.ofEntry? entry.1.trim entry.2 with
    | some d =>
      refine ⟨rejected, ?_⟩
      show Item.place selector guard
        (Level.ofItems selector guard (Item.ofStyle rest)) _ = _
      rw [hlevel]
      rfl
    | none =>
      -- a value without words is rejected under its own key
      refine ⟨⟨selector, entry.1, .invalidValue⟩ :: rejected, ?_⟩
      show Item.place selector guard
        (Level.ofItems selector guard (Item.ofStyle rest)) _ = _
      rw [hlevel]
      rfl

/-- A sheet of custom properties is one rule, unless nothing is declared. -/
theorem Style.rules_report_of_isCustomProperty (selector : Text)
    {entries : List (Text × Value)}
    (h : ∀ entry ∈ entries, IsCustomProperty entry) :
    (Style.report entries selector).rules
      = if (Style.declarationsBy Text.trim entries).isEmpty then []
        else [⟨none, selector, Style.declarationsBy Text.trim entries⟩] := by
  obtain ⟨rejected, hlevel⟩ :=
    Level.ofItems_of_isCustomProperty selector none h
  unfold Style.report Report.ofItems
  rw [hlevel]
  exact (List.append_nil _).trans (List.append_nil _)

/-- A block with declarations as it is printed, unless it has none. -/
def blockText (heading : Text) (declarations : List Declaration) : Text :=
  match declarations with
  | [] => []
  | _ => heading ++ " \x7b\n".toList
    ++ Declaration.lines "  ".toList declarations ++ "\n\x7d".toList

theorem blockText_cons_ne_nil (heading : Text) (d : Declaration)
    (ds : List Declaration) : blockText heading (d :: ds) ≠ [] := by
  simp [blockText]

/-- One rule without a condition is one block. -/
theorem Rule.sheetText_singleton (selector : Text) (d : Declaration)
    (ds : List Declaration) :
    Rule.sheetText [⟨none, selector, d :: ds⟩]
      = blockText selector (d :: ds) := by
  refine List.intercalate_singleton.trans ?_
  show Rule.text [] ⟨none, selector, d :: ds⟩ = _
  simp [Rule.text, blockText]

namespace TokenGroup

variable {groups : List TokenGroup}

/-- The names of the tokens whose values have a CSS form, in order. -/
def names (groups : List TokenGroup) : List Text :=
  Entries.keys ((flattenAll groups).filter fun entry => entry.2.css?.isSome)

/-- What the rule for the root declares. -/
def rootDeclarations (groups : List TokenGroup) : List Declaration :=
  (Sheet.rules (sheet groups)).flatMap Rule.declarations

/-- What the theme block declares. -/
def themeDeclarations (groups : List TokenGroup) : List Declaration :=
  Style.declarations (flattenAll groups)

/-- The rules of the token sheet are those of the root style. -/
theorem rules_sheet (groups : List TokenGroup) :
    Sheet.rules (sheet groups)
      = (Style.report (flattenAll groups) rootSelector).rules := by
  unfold sheet
  split
  · next hnil =>
    rw [hnil]
    rfl
  · show _ ++ [] = _
    rw [List.append_nil]
    rfl

/-- Keys are read without the blanks around them. -/
theorem rootDeclarations_eq (groups : List TokenGroup) :
    rootDeclarations groups
      = Style.declarationsBy Text.trim (flattenAll groups) := by
  unfold rootDeclarations
  rw [rules_sheet,
    Style.rules_report_of_isCustomProperty _ isCustomProperty_of_mem]
  cases Style.declarationsBy Text.trim (flattenAll groups) with
  | nil => rfl
  | cons d ds => exact List.append_nil _

/-- The theme declares what the flattened groups do, with the names as they
are. -/
theorem themeDeclarations_eq (groups : List TokenGroup) :
    themeDeclarations groups
      = Style.declarationsBy id (flattenAll groups) := by
  unfold themeDeclarations Style.declarations
  refine List.filterMap_congr fun entry hentry => if_neg ?_
  obtain ⟨⟨path, hpath⟩, -⟩ := isCustomProperty_of_mem entry hentry
  rw [hpath]
  exact fun heq => absurd (List.head_eq_of_cons_eq heq) (by decide)

/-- Every token whose value has a CSS form is declared once, by its name as it
is spelled for that. -/
theorem properties_declarationsBy (groups : List TokenGroup)
    (read : Text → Text) :
    (Style.declarationsBy read (flattenAll groups)).map Declaration.property
      = (names groups).map fun name => kebabCase (read name) := by
  unfold names Style.declarationsBy
  induction flattenAll groups with
  | nil => rfl
  | cons entry rest ih =>
    rw [List.filterMap_cons, List.filter_cons]
    cases hcss : entry.2.css? with
    | none =>
      simp only [Declaration.ofEntry?, hcss]
      exact ih
    | some css =>
      simp only [Declaration.ofEntry?, hcss]
      exact congrArg _ ih

/-- The sheet is printed as one block. -/
theorem compile_sheet (groups : List TokenGroup) :
    Sheet.compile .lenient (sheet groups)
      = .ok (blockText rootSelector (rootDeclarations groups)) := by
  have hcompile : Sheet.compile .lenient (sheet groups)
      = .ok (blankLine.intercalate
          ([Rule.sheetText (Sheet.rules (sheet groups))].filter
            (!·.isEmpty))) := by
    rw [Sheet.compile_lenient, rules_sheet]
    unfold sheet
    split
    · next hnil =>
      rw [hnil]
      rfl
    · rfl
  rw [hcompile, rootDeclarations_eq, rules_sheet,
    Style.rules_report_of_isCustomProperty _ isCustomProperty_of_mem]
  cases Style.declarationsBy Text.trim (flattenAll groups) with
  | nil => rfl
  | cons d ds =>
    have hne := blockText_cons_ne_nil rootSelector d ds
    rw [List.isEmpty_cons, if_neg Bool.false_ne_true, Rule.sheetText_singleton,
      List.filter_cons_of_pos (by simpa using hne)]
    exact congrArg _ List.intercalate_singleton

/-- The theme is one block of these declarations. -/
theorem theme_eq (groups : List TokenGroup) :
    theme groups = blockText "@theme".toList (themeDeclarations groups) := by
  unfold theme themeDeclarations blockText
  cases Style.declarations (flattenAll groups) <;> rfl

end TokenGroup

end StyleTree
