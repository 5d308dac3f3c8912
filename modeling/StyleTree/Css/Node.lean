/-
The structure of a stylesheet, as far as removing duplicates needs it: which
texts are statements, rules and at-rules, and which declarations stand in which
rule. Nothing is read inside of a prelude, a selector or a declaration. An
at-rule that holds declarations instead of rules is sealed: it is one unit,
compared as a whole.
-/
import StyleTree.Text.Basic

namespace StyleTree.Css

/-- A part of a stylesheet. -/
inductive Node where
  /-- A statement without a block. -/
  | statement (text : Text)
  /-- A selector with its declarations. -/
  | rule (selector : Text) (declarations : List Text)
  /-- A block that is kept or dropped as one text. -/
  | sealed (text : Text)
  /-- An at-rule around other nodes. -/
  | block (heading : Text) (children : List Node)
  deriving Repr

mutual

/-- The node as minified text. -/
def Node.render : Node → Text
  | .statement text => text
  | .sealed text => text
  | .rule selector declarations =>
    selector ++ '{' :: [';'].intercalate declarations ++ ['}']
  | .block heading children => heading ++ '{' :: renderAll children ++ ['}']
termination_by structural node => node

/-- The nodes as minified text, one directly behind the other. -/
def renderAll : List Node → Text
  | [] => []
  | node :: rest => node.render ++ renderAll rest
termination_by structural nodes => nodes

end

/-- Whether a node has nothing left to say. -/
def Node.isEmpty : Node → Bool
  | .statement text => text.isEmpty
  | .sealed text => text.isEmpty
  | .rule _ declarations => declarations.isEmpty
  | .block _ children => children.isEmpty

/-- The node as a list that holds it, unless it has nothing left to say. -/
def Node.unlessEmpty (node : Node) : List Node :=
  if node.isEmpty then [] else [node]

theorem renderAll_singleton (node : Node) : renderAll [node] = node.render :=
  List.append_nil _

/-- Rendering goes node by node. -/
theorem renderAll_append (a b : List Node) :
    renderAll (a ++ b) = renderAll a ++ renderAll b := by
  induction a with
  | nil => rfl
  | cons node rest ih =>
    rw [List.cons_append, renderAll, renderAll, ih, List.append_assoc]

end StyleTree.Css
