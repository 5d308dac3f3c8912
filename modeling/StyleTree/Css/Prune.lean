/-
Dropping what is overridden anyway. Within one at-rule context, a declaration
of a property for a selector loses against every later one for the same
selector and property, except that an important declaration only loses against
a later important one. So the nodes are walked from the last to the first with
a record of what stands further on, and every declaration is judged by that
record alone. What remains keeps its order; rules and blocks with nothing left
in them go, and of equal sealed blocks in one context the last one stays.
-/
import StyleTree.Css.Node
import StyleTree.Text.Blank

namespace StyleTree.Css

-- ===================================================== declarations

/-- What two declarations must share to compete. -/
structure Place where
  context : Text
  selector : Text
  property : Text
  deriving DecidableEq, Repr

/-- The property and the value of a declaration, around its first colon. -/
def splitDeclaration? (declaration : Text) : Option (Text × Text) :=
  match declaration.dropWhile (· != ':') with
  | [] => none
  | _ :: value => some (Text.trim (declaration.takeWhile (· != ':')), value)

/-- Whether a value ends in an exclamation mark and the word `important`, with
any blanks between and behind and the ASCII letters of the word in either
case. -/
def isImportant (value : Text) : Bool :=
  match "important".toList.isSuffixOf? (value.trimEnd.map Char.toLower) with
  | some before => (Text.trimEnd before).getLast? == some '!'
  | none => false

-- ========================================================= the record

/-- What stands further on in the stylesheet. -/
structure Later where
  normal : List Place
  important : List Place
  sealedBlocks : List (Text × Text)
  deriving DecidableEq, Repr

namespace Later

/-- Nothing stands behind the last node. -/
def nothing : Later := ⟨[], [], []⟩

/-- Judges a declaration by what stands further on, and adds it to that. A text
without a colon competes with nothing. -/
def judge (context selector : Text) (declaration : Text) (later : Later) :
    Bool × Later :=
  match splitDeclaration? declaration with
  | none => (true, later)
  | some (property, value) =>
    let place : Place := ⟨context, selector, property⟩
    if isImportant value then
      (place ∉ later.important,
        { later with important := place :: later.important })
    else
      (place ∉ later.normal ∧ place ∉ later.important,
        { later with normal := place :: later.normal })

end Later

-- ============================================================ pruning

/-- The declarations of a rule that nothing further on overrides. -/
def pruneDeclarations (context selector : Text) (later : Later) :
    List Text → List Text × Later
  | [] => ([], later)
  | declaration :: rest =>
    let (kept, behind) := pruneDeclarations context selector later rest
    let (keep, record) := behind.judge context selector declaration
    (if keep then declaration :: kept else kept, record)

/-- The context inside an at-rule: all headings around a place, each closed by
the unit separator. -/
def innerContext (context heading : Text) : Text :=
  context ++ heading ++ [Char.ofNat 0x1F]

mutual

/-- What is left of a node, as a list that holds it or not. -/
def Node.prune (context : Text) (later : Later) :
    Node → List Node × Later
  | .statement text => ((Node.statement text).unlessEmpty, later)
  | .rule selector declarations =>
    let (kept, record) :=
      pruneDeclarations context selector later declarations
    ((Node.rule selector kept).unlessEmpty, record)
  | .sealed text =>
    (if (context, text) ∈ later.sealedBlocks then []
      else (Node.sealed text).unlessEmpty,
      { later with sealedBlocks := (context, text) :: later.sealedBlocks })
  | .block heading children =>
    let (kept, record) :=
      pruneAll (innerContext context heading) later children
    ((Node.block heading kept).unlessEmpty, record)
termination_by structural node => node

/-- What is left of nodes that `later` stands behind, with the record of them
and what is behind them. -/
def pruneAll (context : Text) (later : Later) : List Node → List Node × Later
  | [] => ([], later)
  | node :: rest =>
    let (kept, behind) := pruneAll context later rest
    let (here, record) := node.prune context behind
    (here ++ kept, record)
termination_by structural nodes => nodes

end

end StyleTree.Css
