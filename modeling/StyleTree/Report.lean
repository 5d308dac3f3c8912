/-
From items to rules. Under a selector, and inside a condition, the items of one
level come out in three groups: the declarations as one rule, then what is
nested under further selectors, then what is guarded by further conditions.
Within a group the order of the items is kept. So a level is collected item by
item into its three groups and only then laid end to end; entries that were
left out are collected the same way.
-/
import StyleTree.Rule
import StyleTree.Selector
import StyleTree.Style.Item

namespace StyleTree

/-- What walking through a style tree yields: the rules, and the entries that
were left out. -/
structure Report where
  rules : List Rule
  skipped : List SkippedEntry
  deriving DecidableEq, Repr

namespace Report

/-- Nothing was found. -/
def empty : Report := ⟨[], []⟩

/-- One report after the other. -/
def append (a b : Report) : Report :=
  ⟨a.rules ++ b.rules, a.skipped ++ b.skipped⟩

instance : Append Report := ⟨append⟩

@[simp] theorem rules_append (a b : Report) :
    (a ++ b).rules = a.rules ++ b.rules := rfl

@[simp] theorem skipped_append (a b : Report) :
    (a ++ b).skipped = a.skipped ++ b.skipped := rfl

end Report

/-- One level of a style tree, with its items sorted into groups. -/
structure Level where
  declarations : List Declaration
  rejected : List SkippedEntry
  nested : Report
  conditional : Report
  deriving DecidableEq, Repr

namespace Level

/-- A level without items. -/
def empty : Level := ⟨[], [], .empty, .empty⟩

/-- The rule of the selector itself, unless it has no declarations. -/
def ownRules (selector : Text) (guard : Option Query) (level : Level) :
    List Rule :=
  if level.declarations.isEmpty then []
  else [⟨guard, selector, level.declarations⟩]

/-- The groups of a level end to end. -/
def report (selector : Text) (guard : Option Query) (level : Level) : Report :=
  ⟨level.ownRules selector guard, level.rejected⟩ ++ level.nested
    ++ level.conditional

end Level

mutual

/-- Puts an item in front of its group in the level of the items after it. -/
def Item.place (selector : Text) (guard : Option Query) (level : Level) :
    Item → Level
  | .declaration declaration =>
    { level with declarations := declaration :: level.declarations }
  | .rejected key reason =>
    { level with rejected := ⟨selector, key, reason⟩ :: level.rejected }
  | .nested fragment body =>
    let inner := Selector.compose selector fragment
    { level with
      nested :=
        (Level.ofItems inner guard body).report inner guard ++ level.nested }
  | .guarded query body =>
    let inner := some (query.under guard)
    { level with
      conditional :=
        (Level.ofItems selector inner body).report selector inner
          ++ level.conditional }
  | .unguarded key reason =>
    { level with
      conditional := ⟨[], [⟨selector, key, reason⟩]⟩ ++ level.conditional }
termination_by structural item => item

/-- The level of some items under a selector and inside a condition. -/
def Level.ofItems (selector : Text) (guard : Option Query) : List Item → Level
  | [] => .empty
  | item :: rest =>
    item.place selector guard (Level.ofItems selector guard rest)
termination_by structural items => items

end

/-- The report on items under a selector and inside a condition. -/
def Report.ofItems (selector : Text) (guard : Option Query)
    (items : List Item) : Report :=
  (Level.ofItems selector guard items).report selector guard

/-- The report on a style object under a selector. -/
def Style.report (style : Style) (selector : Text) : Report :=
  Report.ofItems selector none (Item.ofStyle style)

/-- The CSS of a style object under a selector that is used as it is, without a
word on what was left out. -/
def Style.css (style : Style) (selector : Text) : Text :=
  Rule.sheetText (Style.report style selector).rules

end StyleTree
