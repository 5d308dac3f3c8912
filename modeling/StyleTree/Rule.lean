/-
Rules and their printed form. A rule is a selector with declarations, perhaps
under a condition. Rules that follow one another under the same condition are
printed inside one at-rule, and blocks are separated by a blank line, so a list
of rules is first gathered into blocks and these are then printed.
-/
import StyleTree.Query
import StyleTree.Style.Declaration

namespace StyleTree

/-- A rule of the output. -/
structure Rule where
  guard : Option Query
  selector : Text
  declarations : List Declaration
  deriving DecidableEq, Repr

/-- The rule as a text whose lines are indented; its condition is not part of
it. -/
def Rule.text (indent : Text) (rule : Rule) : Text :=
  indent ++ rule.selector ++ " \x7b\n".toList
    ++ Declaration.lines (indent ++ "  ".toList) rule.declarations
      ++ '\n' :: indent ++ ['}']

-- ========================================================== blocks

/-- A block at the top level of the output. -/
inductive Block where
  /-- A rule without a condition. -/
  | rule (rule : Rule)
  /-- An at-rule around one or more rules. -/
  | guarded (query : Query) (rules : List Rule)
  deriving DecidableEq, Repr

namespace Block

/-- Puts a rule in front of blocks; it joins the first of them if that has the
same condition. -/
def cons (r : Rule) (blocks : List Block) : List Block :=
  match r.guard with
  | none => .rule r :: blocks
  | some query =>
    match blocks with
    | .guarded next rs :: rest =>
      if query = next then .guarded query (r :: rs) :: rest
      else .guarded query [r] :: blocks
    | _ => .guarded query [r] :: blocks

/-- Gathers rules into blocks: each run of rules under one condition becomes
one at-rule. -/
def ofRules : List Rule → List Block
  | [] => []
  | r :: rest => cons r (ofRules rest)

/-- The rules of a block, in order. -/
def rules : Block → List Rule
  | rule r => [r]
  | guarded _ rs => rs

/-- Gathering keeps every rule and their order. -/
theorem flatMap_rules_ofRules (rs : List Rule) :
    (ofRules rs).flatMap rules = rs := by
  induction rs with
  | nil => rfl
  | cons r rest ih =>
    rw [ofRules]
    unfold cons
    split
    · simp [rules, ih]
    · split
      · next h =>
        rw [h] at ih
        split
        · simp only [List.flatMap_cons, rules] at ih ⊢
          rw [List.cons_append, ih]
        · rw [List.flatMap_cons, h, ih]
          rfl
      · rw [List.flatMap_cons, ih]
        rfl

/-- The block as it is printed. -/
def text : Block → Text
  | rule r => r.text []
  | guarded query rs =>
    query.text ++ " \x7b\n".toList
      ++ ['\n'].intercalate (rs.map (Rule.text "  ".toList)) ++ "\n\x7d".toList

end Block

/-- What stands between two blocks. -/
def blankLine : Text := "\n\n".toList

/-- The rules as they are printed. -/
def Rule.sheetText (rules : List Rule) : Text :=
  blankLine.intercalate ((Block.ofRules rules).map Block.text)

end StyleTree
