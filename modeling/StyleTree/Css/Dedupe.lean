/-
Removing duplicates from a stylesheet without changing its cascade: the
structure is read, what is overridden anyway is dropped, and the rest is
written without white space between nodes. Of equal statements at the top
level, such as imports, the first stays, because the order of what they load is
fixed by it.
-/
import StyleTree.Css.Parse
import StyleTree.Css.Prune

namespace StyleTree.Css

/-- Drops a top-level statement that stood before; `seen` are the statements so
far. -/
def keepFirstStatements (seen : List Text) : List Node → List Node
  | [] => []
  | .statement text :: rest =>
    if text ∈ seen then keepFirstStatements seen rest
    else .statement text :: keepFirstStatements (text :: seen) rest
  | node :: rest => node :: keepFirstStatements seen rest

/-- The nodes without what is overridden or repeated. -/
def Node.dedupe (nodes : List Node) : List Node :=
  keepFirstStatements [] (pruneAll [] .nothing nodes).1

/-- The text without what is overridden or repeated. -/
def dedupe (css : Text) : Text := renderAll (Node.dedupe (Node.parse css))

end StyleTree.Css
