/-
Removing white space from CSS text. The text is not read as CSS, only string
literals are told apart and left as they are. Outside of them a run of blanks
becomes one space, and no space at all where it stands next to a brace, a
semicolon or a comma, behind a colon, or at either end. In front of a colon it
stays, because a pseudo class of a descendant is not one of the element itself.
The last semicolon of a block goes too.

The state is what has been written so far, last character first: each decision
looks at the character that would stand in front, which after a dropped
semicolon is not the one before it in the input.
-/
import StyleTree.Text.Quoting
import StyleTree.Text.Blank

namespace StyleTree.Css

/-- The characters that no space is written in front of. -/
def isTightBefore (c : Char) : Bool :=
  c == '{' || c == '}' || c == ';' || c == ','

/-- The characters that no space is written behind. -/
def isTightAfter (c : Char) : Bool := isTightBefore c || c == ':'

/-- How far the collapsing has come. -/
structure Collapsing where
  /-- What was written, in reverse order. -/
  written : Text
  quoting : Quoting
  /-- Whether blanks were read since the last character was written. -/
  gap : Bool
  deriving DecidableEq, Repr

namespace Collapsing

/-- Nothing was written yet. -/
def start : Collapsing := ⟨[], .outside, false⟩

/-- Whether blanks between what was written and a character are worth a
space. -/
def needsSpace (written : Text) (c : Char) : Bool :=
  match written with
  | [] => false
  | last :: _ => !isTightAfter last && !isTightBefore c

/-- Takes back a semicolon that was written last. -/
def dropSemicolon : Text → Text
  | ';' :: written => written
  | written => written

/-- Reads one more character. -/
def step (state : Collapsing) (c : Char) : Collapsing :=
  match state.quoting with
  | .inside .. =>
    { state with
      written := c :: state.written, quoting := state.quoting.step c }
  | .outside =>
    if isBlank c then { state with gap := true }
    else
      let spaced :=
        if state.gap && needsSpace state.written c then ' ' :: state.written
        else state.written
      let closed := if c = '}' then dropSemicolon spaced else spaced
      ⟨c :: closed, state.quoting.step c, false⟩

end Collapsing

/-- The text without dispensable white space and semicolons. -/
def collapse (css : Text) : Text :=
  (css.foldl Collapsing.step .start).written.reverse

end StyleTree.Css
