/-
Selectors as text. They are combined by substitution alone and never read for
what they select. A child fragment is put under a parent in one of three ways,
and where either side is a comma list, every parent takes every child, the
parent varying slowest.
-/
import StyleTree.Text.Nesting
import StyleTree.Style.Value

namespace StyleTree

/-- What joins the parts of a selector list. -/
def listSeparator : Text := ", ".toList

namespace Selector

-- ================================================= from class names

/-- The selector of one class; a leading dot is not doubled. -/
def ofClass (name : Text) : Text :=
  match name with
  | '.' :: _ => name
  | _ => '.' :: name

/-- The selector that a class name value stands for: a text names one class, a
list names those of its items that are texts. Blank names do not count, and
without any name there is no selector. -/
def ofClassName? (value : Value) : Option Text :=
  let names := match value with
    | .text name => [name]
    | .array items => items.filterMap Value.text?
    | _ => []
  match (names.map Text.trim).filter (!·.isEmpty) with
  | [] => none
  | usable => some (listSeparator.intercalate (usable.map ofClass))

-- ===================================================== composition

/-- Puts one child under one parent. A child with the parent marker has it
replaced everywhere; a pseudo class or pseudo element attaches to the parent;
anything else becomes a descendant. -/
def nest (parent child : Text) : Text :=
  if '&' ∈ child then child.replace '&' parent
  else match child with
    | ':' :: _ => parent ++ child
    | _ => parent ++ ' ' :: child

/-- Puts a fragment under a parent, each of which may be a comma list. Without
a parent the children stand alone. -/
def compose (parent fragment : Text) : Text :=
  let children := fragment.commaParts
  match parent.commaParts with
  | [] => listSeparator.intercalate children
  | parents =>
    listSeparator.intercalate (parents.flatMap fun p => children.map (nest p))

end Selector

end StyleTree
