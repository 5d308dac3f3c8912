/-
The two ways of declaring design tokens: as a sheet with one rule for the
document root, which goes through the compiler like any other sheet, and as a
theme block, which is printed at once.
-/
import StyleTree.Style.Declaration
import StyleTree.Style.Tokens

namespace StyleTree

/-- The selector that tokens are declared for. -/
def rootSelector : Text := ":root".toList

/-- The tokens as a sheet; without tokens it is empty. -/
def TokenGroup.sheet (groups : List TokenGroup) : Sheet :=
  match flattenAll groups with
  | [] => []
  | properties => [(rootSelector, properties)]

/-- The tokens as a theme block; without declarations it is empty. -/
def TokenGroup.theme (groups : List TokenGroup) : Text :=
  match Style.declarations (flattenAll groups) with
  | [] => []
  | declarations =>
    "@theme \x7b\n".toList ++ Declaration.lines "  ".toList declarations
      ++ "\n\x7d".toList

end StyleTree
