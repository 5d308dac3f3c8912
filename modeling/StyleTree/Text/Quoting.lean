/-
Where a left-to-right scan stands with respect to string literals. A literal
opens with either quote, closes with the same quote, and inside it a backslash
takes the next character out of consideration, whatever it is. Every scan of
this library that must not be misled by the text of a literal (splitting at
commas, finding the end of a block, removing blanks) carries this state; what
else a scan tracks stands beside it.
-/
import StyleTree.Text.Basic

namespace StyleTree

/-- Outside of every literal, or inside one that a given quote opened, perhaps
directly after a backslash. -/
inductive Quoting where
  | outside
  | inside (quote : Char) (escaped : Bool)
  deriving DecidableEq, Repr

/-- The two characters that open a literal. -/
def isQuote (c : Char) : Bool := c == '"' || c == '\''

namespace Quoting

/-- The state after one more character. -/
def step : Quoting → Char → Quoting
  | outside, c => if isQuote c then inside c false else outside
  | inside quote true, _ => inside quote false
  | inside quote false, c =>
    if c = '\\' then inside quote true else if c = quote then outside
    else inside quote false

/-- The state after a whole text. -/
def scan (state : Quoting) (text : Text) : Quoting := text.foldl step state

/-- Outside of literals only a quote changes the state. -/
theorem step_outside_of_not_isQuote {c : Char} (h : isQuote c = false) :
    outside.step c = outside := by
  simp [step, h]

end Quoting

end StyleTree
