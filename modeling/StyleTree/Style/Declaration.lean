/-
Declarations: a property name with the text of its value, as they stand in a
rule. The declarations of a flat style object are its entries that have a CSS
form, in order; the reserved class name key never is one.
-/
import StyleTree.Style.Property

namespace StyleTree

/-- One CSS declaration, in its printed spelling. -/
structure Declaration where
  property : Text
  value : Text
  deriving DecidableEq, Repr

namespace Declaration

/-- The declaration that an entry stands for, if its value has a CSS form. -/
def ofEntry? (key : Text) (value : Value) : Option Declaration :=
  value.css?.map fun css => ⟨kebabCase key, css⟩

/-- The declaration as it is printed. -/
def text (declaration : Declaration) : Text :=
  declaration.property ++ ": ".toList ++ declaration.value ++ [';']

/-- The declaration as an indented line. -/
def line (indent : Text) (declaration : Declaration) : Text :=
  indent ++ declaration.text

/-- Declarations one per line. -/
def lines (indent : Text) (declarations : List Declaration) : Text :=
  ['\n'].intercalate (declarations.map (line indent))

end Declaration

/-- The declarations of a style object that is read as flat. Keys are taken as
they are written. -/
def Style.declarations (style : Style) : List Declaration :=
  style.filterMap fun entry =>
    if entry.1 = classNameKey then none
    else Declaration.ofEntry? entry.1 entry.2

/-- The declarations of a flat style object, one per line with an indent of
two. -/
def Style.declarationText (style : Style) : Text :=
  Declaration.lines "  ".toList (Style.declarations style)

end StyleTree
