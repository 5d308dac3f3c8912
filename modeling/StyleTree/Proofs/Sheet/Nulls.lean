/-
Null entries. Setting a key to null is as good as not writing it: without the
null entries of a sheet, at every depth, a compiler gives the same text or the
same refusal (`Sheet.compile_withoutNulls`). Two kinds of null entries stay.

# A class name that is null

Among the properties of a class the class name takes the place of the name in
the selector, and null names no class. So it does count there, and nowhere
else.

# A condition that is null

Directly inside of a bare keyword a key with a bracket is a condition and wants
an object. If its value is null the entry is left out with a word on it, which
a strict compiler listens to and a lenient one does not (`Item.SameFor`).
-/
import StyleTree.Proofs.Bundle.Strict
import StyleTree.Proofs.Entries.LastWins
import StyleTree.Proofs.Walk.Edited
import StyleTree.Proofs.Walk.SameRules

namespace StyleTree

-- ================================================== what a compiler sees

/-- Items that come to the same for a compiler. A strict one also looks at what
is left out. -/
def Item.SameFor : Strictness → List Item → List Item → Prop
  | .strict => (· = ·)
  | .lenient => SameRules

section

variable {strictness : Strictness} {a b : List Item}

/-- Being the same for a build is kept inside of any items. -/
theorem Item.isCongruence_sameFor (strictness : Strictness) :
    IsCongruence (SameFor strictness) := by
  cases strictness with
  | strict => exact isCongruence_eq
  | lenient => exact isCongruence_sameRules

/-- Items that are the same for a build give the same rules. -/
theorem Item.SameFor.sameRules (h : SameFor strictness a b) :
    SameRules a b := by
  cases strictness with
  | strict =>
    cases h
    exact .refl a
  | lenient => exact h

end

-- ======================================================== without nulls

/-- A null entry that is reported: directly inside of a bare keyword it is a
condition without an object. Only a strict compiler makes anything of it. -/
def IsReportedNull (strictness : Strictness) (bare : Option QueryKind)
    (key : Text) : Prop :=
  strictness = .strict ∧ bare.isSome = true ∧ opensCondition key = true

instance (strictness : Strictness) (bare : Option QueryKind) (key : Text) :
    Decidable (IsReportedNull strictness bare key) :=
  inferInstanceAs (Decidable (_ ∧ _))

/-- Null entries are left out, but for those that are reported. -/
def Edit.dropNulls (strictness : Strictness) : Edit := fun bare key value =>
  if value.isNull = true ∧ ¬ IsReportedNull strictness bare key then none
  else some key

/-- A key that names the classes of a selector: the class name among the
properties of a class. -/
def NamesClass (selector key : Text) : Prop :=
  selector.head? = some '.' ∧ key = classNameKey

instance (selector key : Text) : Decidable (NamesClass selector key) :=
  inferInstanceAs (Decidable (_ ∧ _))

/-- The style object of a selector without null entries, at every depth. -/
def Style.withoutNulls (strictness : Strictness) (selector : Text)
    (style : Style) : Style :=
  style.filterMap fun (key, value) =>
    if value.isNull = true ∧ ¬ NamesClass selector key then none
    else some (key, value.edited (.dropNulls strictness) (bareKind? key))

/-- A sheet without null entries, at every depth of every style object. -/
def Sheet.withoutNulls (strictness : Strictness) (sheet : Sheet) : Sheet :=
  sheet.map fun entry =>
    (entry.1, Style.withoutNulls strictness entry.1 entry.2)

-- ============================================================ one edit

theorem Value.eq_null_of_isNull {value : Value} (h : value.isNull = true) :
    value = .null := by
  cases value <;> first | rfl | cases h

/-- A compiler takes every tree as it is without nulls. -/
theorem Edit.keep_agreeBy_dropNulls (strictness : Strictness) :
    AgreeBy (Item.SameFor strictness) .keep (.dropNulls strictness) := by
  have hR := Item.isCongruence_sameFor strictness
  intro bare key value hvalue
  rw [Style.editedEntry, Style.editedEntry]
  unfold keep dropNulls
  dsimp only
  by_cases hdrop : value.isNull = true ∧ ¬ IsReportedNull strictness bare key
  · rw [if_pos hdrop]
    obtain rfl := Value.eq_null_of_isNull hdrop.1
    refine .null hR fun hbare hopens => ?_
    -- what is left out there is of no interest to a lenient compiler
    cases strictness with
    | strict => exact absurd ⟨rfl, hbare, hopens⟩ hdrop.2
    | lenient => exact fun _ _ => rfl
  · rw [if_neg hdrop]
    exact hvalue.entry hR bare

/-- No value changes for a build when nulls are left out of it. -/
theorem Value.sameBy_dropNulls (strictness : Strictness)
    (bare : Option QueryKind) (value : Value) :
    value.SameBy (Item.SameFor strictness) bare
      (value.edited (.dropNulls strictness) bare) := by
  have h := Edit.AgreeBy.editedValue (Item.isCongruence_sameFor strictness)
    (Edit.keep_agreeBy_dropNulls strictness) bare value
  rwa [edited_keep] at h

-- ======================================================== style objects

namespace Style

variable (strictness : Strictness) (selector : Text)

/-- An entry of a sheet goes if it is null and names no class. Any other entry
stays, without the nulls inside of it. -/
theorem withoutNulls_cons (key : Text) (value : Value) (rest : Style) :
    withoutNulls strictness selector ((key, value) :: rest)
      = if value.isNull = true ∧ ¬ NamesClass selector key then
          withoutNulls strictness selector rest
        else (key, value.edited (.dropNulls strictness) (bareKind? key))
          :: withoutNulls strictness selector rest := by
  unfold withoutNulls
  rw [List.filterMap_cons]
  by_cases hdrop : value.isNull = true ∧ ¬ NamesClass selector key
  · simp only [if_pos hdrop]
  · simp only [if_neg hdrop]

/-- A compiler takes a style object as it is without nulls. -/
theorem sameFor_withoutNulls (style : Style) :
    Item.SameFor strictness (Item.ofStyle style)
      (Item.ofStyle (withoutNulls strictness selector style)) := by
  have hR := Item.isCongruence_sameFor strictness
  induction style with
  | nil => exact hR.refl []
  | cons entry rest ih =>
    obtain ⟨key, value⟩ := entry
    rw [withoutNulls_cons]
    split
    · next hdrop =>
      obtain rfl := Value.eq_null_of_isNull hdrop.1
      exact ih
    · have hentry : AlikeBy (Item.SameFor strictness) none [(key, value)]
          [(key, value.edited (.dropNulls strictness) (bareKind? key))] :=
        (Value.sameBy_dropNulls strictness (bareKind? key) value).entry hR none
      have hrest : AlikeBy (Item.SameFor strictness) none rest
          (withoutNulls strictness selector rest) := ih
      exact hentry.append hR hrest

/-- The keys that stay are in their order. -/
theorem keys_withoutNulls_sublist (style : Style) :
    (Entries.keys (withoutNulls strictness selector style)).Sublist
      (Entries.keys style) := by
  induction style with
  | nil => exact .slnil
  | cons entry rest ih =>
    obtain ⟨key, value⟩ := entry
    rw [withoutNulls_cons]
    split
    · exact ih.cons key
    · exact ih.cons_cons key

/-- So no key is there twice if none was. -/
theorem distinct_withoutNulls {style : Style} (h : Entries.Distinct style) :
    Entries.Distinct (withoutNulls strictness selector style) :=
  h.sublist (keys_withoutNulls_sublist strictness selector style)

/-- The class name of a class stays, and if it is an object so it does without
nulls. -/
theorem get?_withoutNulls_classNameKey (h : selector.head? = some '.')
    (style : Style) :
    Entries.get? (withoutNulls strictness selector style) classNameKey
      = (Entries.get? style classNameKey).map fun value =>
          value.edited (.dropNulls strictness) (bareKind? classNameKey) := by
  induction style with
  | nil => rfl
  | cons entry rest ih =>
    obtain ⟨key, value⟩ := entry
    rw [withoutNulls_cons, Entries.get?_cons]
    by_cases hkey : key = classNameKey
    · have hstays : ¬ (value.isNull = true ∧ ¬ NamesClass selector key) :=
        fun hdrop => hdrop.2 ⟨h, hkey⟩
      rw [if_neg hstays, Entries.get?_cons, if_pos hkey, if_pos hkey, hkey]
      rfl
    · rw [if_neg hkey]
      split
      · exact ih
      · rwa [Entries.get?_cons, if_neg hkey]

end Style

-- ========================================================== class names

/-- Edits inside of a value leave the class that it names. -/
theorem Selector.ofClassName?_edited (edit : Edit) (bare : Option QueryKind)
    (value : Value) :
    ofClassName? (value.edited edit bare) = ofClassName? value := by
  cases value with
  | array items =>
    have htexts : (Value.editedItems edit items).filterMap Value.text?
        = items.filterMap Value.text? := by
      induction items with
      | nil => rfl
      | cons item rest ih =>
        rw [Value.editedItems, List.filterMap_cons, List.filterMap_cons,
          Value.text?_edited, ih]
    unfold ofClassName?
    rw [Value.edited]
    dsimp only
    rw [htexts]
  | _ => rfl

namespace Style

variable {properties : Style} (name : Text)

/-- The class of an entry is the one that its style names, or else its own. -/
theorem get?_ofClass (h : Entries.Distinct properties) :
    Entries.get? (ofClass name properties) classNameKey
      = (Entries.get? properties classNameKey).or (some (.text name)) := by
  unfold ofClass
  rw [Entries.get?_extend, Entries.ofList_eq_self h]
  rfl

/-- No item comes from the class name. -/
theorem ofStyle_erase_classNameKey (style : Style) :
    Item.ofStyle (Entries.erase style classNameKey) = Item.ofStyle style := by
  induction style with
  | nil => rfl
  | cons entry rest ih =>
    obtain ⟨key, value⟩ := entry
    rw [Entries.erase]
    split
    · next hkey =>
      rw [Item.ofStyle, Item.ofEntry, hkey, Item.ofValue_classNameKey]
      rfl
    · rw [Item.ofStyle, Item.ofStyle, ih]

/-- Without nulls, a class has the same selector. -/
theorem classSelector?_withoutNulls (strictness : Strictness)
    (h : Entries.Distinct properties) :
    classSelector? (ofClass name
        (withoutNulls strictness ('.' :: name) properties))
      = classSelector? (ofClass name properties) := by
  have hleft := distinct_withoutNulls strictness ('.' :: name) h
  unfold classSelector?
  rw [get?_ofClass name hleft, get?_ofClass name h,
    get?_withoutNulls_classNameKey strictness ('.' :: name) rfl]
  cases Entries.get? properties classNameKey with
  | none => rfl
  | some value => exact Selector.ofClassName?_edited _ _ value

/-- To the walk, a class is its properties. -/
theorem ofStyle_ofClass (h : Entries.Distinct properties) :
    Item.ofStyle (ofClass name properties) = Item.ofStyle properties := by
  unfold ofClass
  rw [Entries.extend_singleton h, Item.ofStyle, Item.ofEntry,
    Item.ofValue_classNameKey, ofStyle_erase_classNameKey]
  rfl

end Style

-- =============================================================== sheets

namespace Sheet

variable (strictness : Strictness) (selector : Text) {style : Style}

/-- Two style objects under one selector that come to the same for a
compiler. -/
def SameUnder (a b : Text × Style) : Prop :=
  a.1 = b.1 ∧ Item.SameFor strictness (Item.ofStyle a.2) (Item.ofStyle b.2)

/-- Without nulls, an entry is compiled under the same selector if under any,
and comes to the same there. -/
theorem target?_withoutNulls (h : Entries.Distinct style) :
    Option.Rel (SameUnder strictness) (target? selector style)
      (target? selector (Style.withoutNulls strictness selector style)) := by
  have hsame := Style.sameFor_withoutNulls strictness selector style
  by_cases hdot : selector.head? = some '.'
  · obtain ⟨name, rfl⟩ := List.head?_eq_some_iff.1 hdot
    have hleft := Style.distinct_withoutNulls strictness ('.' :: name) h
    rw [target?_class, target?_class,
      Style.classSelector?_withoutNulls name _ h]
    cases Style.classSelector? (Style.ofClass name style) with
    | none => exact .none
    | some root =>
      refine .some ⟨rfl, ?_⟩
      rwa [Style.ofStyle_ofClass name h, Style.ofStyle_ofClass name hleft]
  · rw [target?_of_head?_ne hdot, target?_of_head?_ne hdot]
    split
    · exact .none
    · exact .some ⟨rfl, hsame⟩

/-- The rules of an entry are the same without its nulls. -/
theorem rulesOfEntry_withoutNulls (h : Entries.Distinct style) :
    rulesOfEntry (selector, Style.withoutNulls strictness selector style)
      = rulesOfEntry (selector, style) := by
  have htarget := target?_withoutNulls strictness selector h
  unfold rulesOfEntry
  generalize target? selector style = found,
    target? selector (Style.withoutNulls strictness selector style) = left
    at htarget ⊢
  cases htarget with
  | none => rfl
  | @some target target' hsame =>
    obtain ⟨root, own⟩ := target
    obtain ⟨root', own'⟩ := target'
    obtain ⟨rfl, hitems⟩ := hsame
    exact (congrArg Report.rules
      (hitems.sameRules.silenced_report root none)).symm

/-- So is the fault that a strict build finds in it. -/
theorem fault?_withoutNulls (h : Entries.Distinct style) :
    fault? (selector, Style.withoutNulls .strict selector style)
      = fault? (selector, style) := by
  have htarget := target?_withoutNulls .strict selector h
  unfold fault?
  generalize target? selector style = found,
    target? selector (Style.withoutNulls .strict selector style) = left
    at htarget ⊢
  cases htarget with
  | none => rfl
  | @some target target' hsame =>
    obtain ⟨root, own⟩ := target
    obtain ⟨root', own'⟩ := target'
    obtain ⟨rfl, hitems⟩ := hsame
    have hreport : Style.report own' root = Style.report own root :=
      congrArg (Report.ofItems root none) (Eq.symm hitems)
    dsimp only
    rw [hreport]

theorem findSome?_fault?_withoutNulls {sheet : Sheet}
    (h : ∀ entry ∈ sheet, Entries.Distinct entry.2) :
    (withoutNulls .strict sheet).findSome? fault?
      = sheet.findSome? fault? := by
  induction sheet with
  | nil => rfl
  | cons entry rest ih =>
    obtain ⟨selector, style⟩ := entry
    obtain ⟨hstyle, hrest⟩ := List.forall_mem_cons.1 h
    have hcons : withoutNulls .strict ((selector, style) :: rest)
        = (selector, Style.withoutNulls .strict selector style)
          :: withoutNulls .strict rest := rfl
    rw [hcons, List.findSome?_cons, List.findSome?_cons,
      fault?_withoutNulls selector hstyle, ih hrest]

/-- The text of a sheet is the same without its nulls. -/
theorem text_withoutNulls {sheet : Sheet}
    (h : ∀ entry ∈ sheet, Entries.Distinct entry.2) :
    text (withoutNulls strictness sheet) = text sheet := by
  have hrules : ∀ entry ∈ sheet,
      Rule.sheetText (rulesOfEntry
          (entry.1, Style.withoutNulls strictness entry.1 entry.2))
        = Rule.sheetText (rulesOfEntry entry) := fun entry hentry =>
    congrArg Rule.sheetText
      (rulesOfEntry_withoutNulls strictness entry.1 (h entry hentry))
  unfold text withoutNulls
  rw [List.map_map]
  exact congrArg
    (fun blocks => blankLine.intercalate (blocks.filter (!·.isEmpty)))
    (List.map_congr_left hrules)

/-- Null entries are as good as absent. A sheet without them, at every depth of
its style objects, compiles to the same text or is refused with the same error,
skipped entries included. But a null class name stays among the properties of a
class, where it takes the place of the name in the selector; and for a strict
compiler null stays under a condition directly inside of a bare keyword. No key
stands twice in a style object, as in every map. -/
theorem compile_withoutNulls {sheet : Sheet}
    (h : ∀ entry ∈ sheet, Entries.Distinct entry.2) :
    compile strictness (withoutNulls strictness sheet)
      = compile strictness sheet := by
  have htext := text_withoutNulls strictness h
  cases strictness with
  | lenient =>
    rw [compile_lenient, compile_lenient]
    exact congrArg Except.ok htext
  | strict =>
    rw [compile_strict, compile_strict, findSome?_fault?_withoutNulls h, htext]

/-- A class with one name and a null beside it, nulls at two depths, and a
condition that is null; and a rule that names no class. -/
theorem compile_withoutNulls_buttons :
    let media : Style :=
      [("(width > 1px)".toList,
          .object [("gap".toList, .null),
            ("color".toList, .text "red".toList)]),
        ("(print)".toList, .null)]
    let buttons : Sheet :=
      [(".btn".toList, [(classNameKey, .array [.text "big".toList, .null]),
          ("color".toList, .null), ("@media".toList, .object media)]),
        ("a".toList, [(classNameKey, .null), ("gap".toList, .number 0)])]
    (∀ entry ∈ buttons, Entries.Distinct entry.2)
    ∧ compile .lenient (withoutNulls .lenient buttons)
      = compile .lenient buttons
    ∧ compile .strict (withoutNulls .strict buttons) = compile .strict buttons
    ∧ (withoutNulls .lenient buttons).map (fun entry => Style.allKeys entry.2)
      = [[classNameKey, "@media".toList, "(width > 1px)".toList,
        "color".toList],
        ["gap".toList]] := by
  intro media buttons
  have hdistinct : ∀ entry ∈ buttons, Entries.Distinct entry.2 := by
    unfold Entries.Distinct
    decide
  refine ⟨hdistinct, compile_withoutNulls .lenient hdistinct,
    compile_withoutNulls .strict hdistinct, ?_⟩
  decide +kernel

/-- A class name that is null is not as good as absent: there is no class left.
Nor is a condition of a bare keyword for a strict compiler. -/
theorem null_entries_count :
    let red : Text × Value := ("color".toList, .text "red".toList)
    let button (properties : Style) : Sheet := [(".btn".toList, properties)]
    let bare (body : Style) : Sheet :=
      [(".r".toList, [("@media".toList, .object body)])]
    (compile .lenient (button [(classNameKey, .null), red]) = .ok []
      ∧ compile .lenient (button [red])
        = .ok ".btn \x7b\n  color: red;\n\x7d".toList)
    ∧ (compile .strict (bare [("(a)".toList, .null)])
        = .error (.skippedEntries
          [⟨".r".toList, "(a)".toList, .conditionalNotObject⟩])
      ∧ compile .strict (bare []) = .ok []) := by
  decide +kernel

end Sheet

end StyleTree
