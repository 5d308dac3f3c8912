/-
Items that emit the same rules. They may differ in what is left out and where,
so a level is compared after it was silenced. The relation is a congruence:
items may stand beside others, below a selector, and inside of a condition. So
what is shown of the entries of one object holds at any depth.

A level is the levels of its parts side by side (`Level.ofItems_append`), which
is where two runs over one tree can be compared part by part.
-/
import StyleTree.Proofs.Walk.Cleaned

namespace StyleTree

-- ================================================= levels side by side

namespace Report

@[simp] theorem append_empty (report : Report) : report ++ empty = report := by
  obtain ⟨rules, skipped⟩ := report
  show Report.mk (rules ++ []) (skipped ++ []) = _
  rw [List.append_nil, List.append_nil]

@[simp] theorem empty_append (report : Report) :
    empty ++ report = report := rfl

theorem append_assoc (a b c : Report) : a ++ b ++ c = a ++ (b ++ c) := by
  exact congrArg₂ Report.mk (List.append_assoc ..) (List.append_assoc ..)

theorem silenced_append (a b : Report) :
    (a ++ b).silenced = a.silenced ++ b.silenced := rfl

end Report

namespace Level

/-- Two parts of a level, group by group. -/
def join (a b : Level) : Level :=
  ⟨a.declarations ++ b.declarations, a.rejected ++ b.rejected,
    a.nested ++ b.nested, a.conditional ++ b.conditional⟩

theorem silenced_join (a b : Level) :
    (a.join b).silenced = a.silenced.join b.silenced := rfl

variable (selector : Text) (guard : Option Query)

/-- An item adds to two levels together what it adds to the first. -/
theorem place_join (item : Item) (a b : Level) :
    item.place selector guard (a.join b)
      = (item.place selector guard a).join b := by
  cases item <;>
    simp only [Item.place, join, List.cons_append, Report.append_assoc]

/-- A level is the levels of its parts side by side. -/
theorem ofItems_append (a b : List Item) :
    ofItems selector guard (a ++ b)
      = (ofItems selector guard a).join (ofItems selector guard b) := by
  induction a with
  | nil => rfl
  | cons item rest ih =>
    rw [List.cons_append, ofItems, ofItems, ih, place_join]

end Level

-- ======================================================== same rules

namespace Item

variable {a a' b b' c : List Item}

/-- In whatever place they stand, the items emit the same rules. -/
def SameRules (a b : List Item) : Prop :=
  ∀ selector guard, (Level.ofItems selector guard a).silenced
    = (Level.ofItems selector guard b).silenced

namespace SameRules

theorem refl (items : List Item) : SameRules items items := fun _ _ => rfl

theorem symm (h : SameRules a b) : SameRules b a :=
  fun selector guard => (h selector guard).symm

theorem trans (hab : SameRules a b) (hbc : SameRules b c) : SameRules a c :=
  fun selector guard => (hab selector guard).trans (hbc selector guard)

/-- Items that give the same rules may stand one after the other. -/
theorem append (ha : SameRules a a') (hb : SameRules b b') :
    SameRules (a ++ b) (a' ++ b') := by
  intro selector guard
  rw [Level.ofItems_append, Level.ofItems_append, Level.silenced_join,
    Level.silenced_join, ha, hb]

/-- The same rules are emitted in a report. -/
theorem silenced_report (h : SameRules a b) (selector : Text)
    (guard : Option Query) :
    ((Level.ofItems selector guard a).report selector guard).silenced
      = ((Level.ofItems selector guard b).report selector guard).silenced := by
  rw [← Level.report_silenced, ← Level.report_silenced, h]

end SameRules

/-- The rules stay the same whatever stands around the items. -/
theorem isCongruence_sameRules : IsCongruence SameRules where
  refl := .refl
  append := .append
  nested h fragment := by
    intro selector guard
    have hinner := h.silenced_report (Selector.compose selector fragment) guard
    simp only [Level.ofItems, place, Level.silenced, Report.silenced_append,
      hinner]
  guarded h query := by
    intro selector guard
    have hinner := h.silenced_report selector (some (query.under guard))
    simp only [Level.ofItems, place, Level.silenced, Report.silenced_append,
      hinner]

/-- What is left out emits nothing. -/
theorem sameRules_keptAll (items : List Item) :
    SameRules (keptAll items) items := by
  intro selector guard
  rw [Level.ofItems_keptAll]
  rfl

/-- Broken conditions give no rules. -/
theorem sameRules_brokenConditions (body : Style) :
    SameRules (brokenConditions body) [] := by
  have h := sameRules_keptAll (brokenConditions body)
  rw [keptAll_brokenConditions] at h
  exact h.symm

theorem sameRules_missingConditions (body : Style) :
    SameRules (missingConditions body) [] := by
  have h := sameRules_keptAll (missingConditions body)
  rw [keptAll_missingConditions] at h
  exact h.symm

-- =============================================== inside of keywords

/-- What a bare keyword leaves out emits nothing, so only the entries that it
guards and its conditions count. -/
theorem SameRules.alikeInBare {kind : QueryKind} {body body' : Style}
    (hmedia : kind = .media →
      SameRules (unconditioned body) (unconditioned body'))
    (hconditions : SameRules (conditions kind body) (conditions kind body')) :
    Style.AlikeInBare SameRules kind body body' where
  broken := (sameRules_brokenConditions body).trans
    (sameRules_brokenConditions body').symm
  unconditioned := hmedia
  missing _ := (sameRules_missingConditions body).trans
    (sameRules_missingConditions body').symm
  conditions := hconditions

end Item

/-- Two style objects whose items emit the same rules come out the same. -/
theorem Style.css_eq_of_sameRules {a b : Style}
    (h : Item.SameRules (Item.ofStyle a) (Item.ofStyle b)) (selector : Text) :
    css a selector = css b selector := by
  have hrules : (report a selector).silenced.rules
      = (report b selector).silenced.rules :=
    congrArg Report.rules (h.silenced_report selector none)
  exact congrArg Rule.sheetText hrules

end StyleTree
