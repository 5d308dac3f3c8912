/-
Blanks around keys. Trimming every key of a tree changes nothing that is
emitted, but for one key: the class name key is compared as it is written, so
with blanks around it it is a property or a selector, and its entry comes out
as any other. Trimmed, it is the class name key again, and the entry is gone
(`Style.css_trimKeys`).

A refusal names the key as it was written. So the trimmed tree has the same
rules, but not the same report.
-/
import StyleTree.Proofs.Text.Trim
import StyleTree.Proofs.Walk.Edited
import StyleTree.Proofs.Walk.SameRules

namespace StyleTree

/-- The class name key with blanks around it. -/
def IsPaddedClassName (key : Text) : Prop :=
  key.trim = classNameKey ∧ key ≠ classNameKey

instance : DecidablePred IsPaddedClassName :=
  fun _ => inferInstanceAs (Decidable (_ ∧ _))

/-- Every key is trimmed. -/
def Edit.trimKeys : Edit := fun _ key _ => some key.trim

/-- What stands under a class name key with blanks around it is left out. -/
def Edit.dropPaddedClassNames : Edit := fun _ key _ =>
  if IsPaddedClassName key then none else some key

namespace Style

/-- A tree with all its keys trimmed, at every depth. -/
def trimKeys (style : Style) : Style := edited .trimKeys none style

/-- A tree without the entries, at every depth, whose key is the class name key
but for blanks around it. -/
def withoutPaddedClassNames (style : Style) : Style :=
  edited .dropPaddedClassNames none style

end Style

-- ======================================================== trimmed keys

section

variable {key key' : Text}

/-- Blanks around a key change nothing about what it opens with. -/
theorem opensCondition_trim (key : Text) :
    opensCondition key.trim = opensCondition key := by
  unfold opensCondition
  rw [Text.trim_trim]

/-- Only the class name key is compared as it is written. -/
theorem Role.ofKey_trim (h : ¬ IsPaddedClassName key) :
    ofKey key.trim = ofKey key := by
  have hname : key.trim = classNameKey ↔ key = classNameKey := by
    constructor
    · exact fun htrim => by_contra fun hne => h ⟨htrim, hne⟩
    · rintro rfl
      decide
  unfold ofKey
  rw [Text.trim_trim]
  simp only [hname]

namespace Item

/-- Of a key only its role comes out, but in a refusal. -/
theorem SameRules.ofValue_of_role_eq (h : Role.ofKey key = Role.ofKey key')
    (value : Value) : SameRules (ofValue key value) (ofValue key' value) := by
  have hplain : SameRules (ofPlain key value) (ofPlain key' value) := by
    unfold ofPlain
    rw [h]
    cases Role.ofKey key' with
    | className => exact .refl []
    | name name =>
      dsimp only
      cases Declaration.ofEntry? name value with
      | some declaration => exact .refl _
      | none => exact fun _ _ => rfl
    | _ => exact fun _ _ => rfl
  cases value with
  | null => exact .refl []
  | object body =>
    rw [ofValue_object, ofValue_object, h]
    cases Role.ofKey key' with
    | name name =>
      cases name with
      | nil => exact fun _ _ => rfl
      | cons c name => exact .refl _
    | atRule => exact fun _ _ => rfl
    | _ => exact .refl _
  | _ => exact hplain

/-- The conditions are the same for a trimmed key. -/
theorem conditions_trim (kind : QueryKind) (key : Text) (value : Value) :
    conditions kind [(key.trim, value)] = conditions kind [(key, value)] := by
  rw [conditions_singleton, conditions_singleton]
  cases value with
  | object body =>
    rw [conditionOfValue, conditionOfValue, opensCondition_trim,
      Text.trim_trim]
  | _ => rfl

/-- To all that reads an entry, its key may be trimmed. -/
theorem SameRules.alikeBy_trim (h : ¬ IsPaddedClassName key)
    (bare : Option QueryKind) (value : Value) :
    Style.AlikeBy SameRules bare [(key.trim, value)] [(key, value)] := by
  have hvalue : SameRules (ofValue key.trim value) (ofValue key value) :=
    .ofValue_of_role_eq (Role.ofKey_trim h) value
  cases bare with
  | none =>
    show SameRules (ofStyle _) (ofStyle _)
    rwa [ofStyle_singleton, ofStyle_singleton]
  | some kind =>
    refine SameRules.alikeInBare (fun _ => ?_) ?_
    · rw [unconditioned_singleton, unconditioned_singleton,
        opensCondition_trim]
      split
      · exact .refl []
      · exact hvalue
    · rw [conditions_trim]
      exact .refl _

end Item

end

-- ========================================================== the tree

/-- Trimming keys comes to the same as leaving out what is a class name entry
only then. -/
theorem Edit.trimKeys_agreeBy :
    AgreeBy Item.SameRules .trimKeys .dropPaddedClassNames := by
  intro bare key value hvalue
  rw [Style.editedEntry, Style.editedEntry]
  unfold trimKeys dropPaddedClassNames
  by_cases hpadded : IsPaddedClassName key
  · rw [if_pos hpadded]
    dsimp only
    rw [hpadded.1]
    exact .className Item.isCongruence_sameRules bare _
  · rw [if_neg hpadded]
    exact .trans Item.SameRules.trans
      (Item.SameRules.alikeBy_trim hpadded bare _)
      (hvalue.entry Item.isCongruence_sameRules bare)

namespace Style

/-- Blanks around keys make no difference to what is emitted, but for the class
name key. With all keys of a tree trimmed, its text is that of the tree without
the entries under a class name key that had blanks around it, and so the text
of the tree itself if there are none. Nothing is asked of the keys of an
object, so it also holds where some are equal once they are trimmed. -/
theorem css_trimKeys (style : Style) (selector : Text) :
    css (trimKeys style) selector
      = css (withoutPaddedClassNames style) selector
      ∧ ((∀ key ∈ allKeys style, ¬ IsPaddedClassName key) →
        css (trimKeys style) selector = css style selector) := by
  have htrim : css (trimKeys style) selector
      = css (withoutPaddedClassNames style) selector :=
    css_eq_of_sameRules
      (Edit.trimKeys_agreeBy.edited Item.isCongruence_sameRules none style)
        selector
  refine ⟨htrim, fun hkeys => htrim.trans ?_⟩
  have hkept : withoutPaddedClassNames style = style :=
    edited_eq_self none style fun key hkey _ _ => if_neg (hkeys key hkey)
  rw [hkept]

end Style

/-- With blanks around a conditional key, a condition in it, a selector, a
property, and `self`; the class name key has none. -/
theorem css_trimKeys_padded :
    let style : Style :=
      [("className".toList, .text "btn".toList),
        ("\t@media ".toList, .object [(" (width > 1px)\n".toList,
          .object [(" &:hover".toList,
            .object [("color ".toList, .text "red".toList)])])]),
        (" self ".toList, .object [(" gap".toList, .number 0)])]
    (∀ key ∈ Style.allKeys style, ¬ IsPaddedClassName key)
    ∧ Style.css (Style.trimKeys style) ".r".toList
      = Style.css style ".r".toList
    ∧ (Style.report style ".r".toList).rules.map Rule.selector
      = [".r".toList, ".r:hover".toList] := by
  intro style
  have hkeys : ∀ key ∈ Style.allKeys style, ¬ IsPaddedClassName key := by
    decide +kernel
  exact ⟨hkeys, (Style.css_trimKeys style ".r".toList).2 hkeys,
    by decide +kernel⟩

/-- With blanks around it, the class name key declares a property or opens a
selector; trimmed it does neither. -/
theorem padded_class_name_is_emitted :
    let plain : Style := [(" className ".toList, .text "btn".toList)]
    let nested : Style :=
      [(" className ".toList, .object [("color".toList, .text "red".toList)])]
    (Style.css plain ".r".toList
        = ".r \x7b\n  class-name: btn;\n\x7d".toList
      ∧ Style.css (Style.trimKeys plain) ".r".toList = [])
    ∧ (Style.css nested ".r".toList
        = ".r className \x7b\n  color: red;\n\x7d".toList
      ∧ Style.css (Style.trimKeys nested) ".r".toList = []) := by
  decide +kernel

end StyleTree
