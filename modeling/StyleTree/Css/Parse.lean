/-
Reading the structure off CSS text. Every text has one, well formed or not: a
closing brace without a block is passed over, a block without its closing brace
goes on to the end, and a tail without either brace or semicolon is a
statement. What precedes a block ends at the first brace or semicolon on the
top level of the text, while the end of a block is found by counting braces
outside of string literals alone.
-/
import StyleTree.Css.Node
import StyleTree.Text.Nesting

namespace StyleTree.Css

-- ==================================================== finding blocks

/-- The text up to the brace that closes the enclosing block, and the text
behind it, when `depth` further blocks are open at the start. Without that
brace everything belongs to the block. -/
def splitBlock : Quoting → Nat → Text → Text × Text
  | _, _, [] => ([], [])
  | .outside, 0, '}' :: rest => ([], rest)
  | quoting, depth, c :: rest =>
    let inner :=
      if quoting = .outside then
        (if c = '{' then depth + 1 else if c = '}' then depth - 1 else depth)
      else depth
    let (body, after) := splitBlock (quoting.step c) inner rest
    (c :: body, after)

/-- The block and what follows it are parts of the text. -/
theorem length_splitBlock_le (quoting : Quoting) (depth : Nat) (text : Text) :
    (splitBlock quoting depth text).1.length ≤ text.length ∧
      (splitBlock quoting depth text).2.length ≤ text.length := by
  fun_induction splitBlock quoting depth text with
  | case1 => simp
  | case2 rest => simp
  | case3 quoting depth c rest _ inner body after heq ih =>
    rw [heq] at ih
    simp only [List.length_cons] at *
    omega

-- ====================================================== the nodes

/-- The declarations in the body of a rule, trimmed and without blank ones. -/
def declarationTexts (body : Text) : List Text :=
  match _h : body.breakTopLevel (· == ';') with
  | none => [body.trim].filter (!·.isEmpty)
  | some (before, _, after) =>
    [before.trim].filter (!·.isEmpty) ++ declarationTexts after
termination_by body.length
decreasing_by exact Text.length_lt_of_breakTopLevel ‹_›

/-- Whether the body of a block holds further blocks. -/
def holdsBlocks (body : Text) : Bool := (body.breakTopLevel (· == '{')).isSome

/-- Whether what precedes a block is an at-rule. -/
def isAtRule (heading : Text) : Bool := heading.head? == some '@'

/-- The node of a block that is not read into: a rule with its declarations, or
a sealed text if the block is an at-rule or has further blocks inside. -/
def Node.ofFlatBlock (heading body : Text) : Node :=
  if isAtRule heading || holdsBlocks body then
    .sealed (heading ++ '{' :: body.trim ++ ['}'])
  else .rule heading (declarationTexts body)

/-- What ends the text in front of a block, or a statement. -/
def endsHeading (c : Char) : Bool := c == '{' || c == ';'

/-- The nodes of a text, in order. Only an at-rule with blocks inside is read
into. -/
def Node.parse (text : Text) : List Node :=
  match _h : text.trimStart with
  | [] => []
  | first :: rest =>
    if first = '}' then Node.parse rest
    else match _hbreak : Text.breakTopLevel endsHeading (first :: rest) with
    | none => [.statement (Text.trimEnd (first :: rest))]
    | some (before, ending, after) =>
      if ending = ';' then .statement (before ++ [';']) :: Node.parse after
      else
        let heading := before.trim
        let body := (splitBlock .outside 0 after).1
        let node :=
          if isAtRule heading && holdsBlocks body then
            .block heading (Node.parse body)
          else .ofFlatBlock heading body
        node :: Node.parse (splitBlock .outside 0 after).2
termination_by text.length
decreasing_by
  all_goals
    have htrim := Text.length_trimStart_le text
    rw [_h, List.length_cons] at htrim
  · omega
  all_goals
    have hafter := Text.length_lt_of_breakTopLevel _hbreak
    have hblock := length_splitBlock_le .outside 0 after
    rw [List.length_cons] at hafter
    omega

end StyleTree.Css
