/-
The top level of a text: what stands outside of string literals and outside of
round and square brackets. The two kinds of bracket share one depth, and a
closing bracket at depth zero is passed over, so every text has a state at
every place, balanced or not. Two questions are asked of the top level: where
it is cut by a separator (`splitTopLevel`), and what stands before and after
the first of some characters (`breakTopLevel`). Quotes and brackets themselves
are never cut at, because they change the state instead.
-/
import StyleTree.Text.Quoting
import StyleTree.Text.Blank

namespace StyleTree

/-- The state of a scan that respects literals and brackets. -/
structure Nesting where
  quoting : Quoting
  depth : Nat
  deriving DecidableEq, Repr

namespace Nesting

/-- Outside of literals and of brackets; where every scan starts. -/
def top : Nesting := ⟨.outside, 0⟩

/-- Either bracket goes one level down. -/
def isOpening (c : Char) : Bool := c == '(' || c == '['

/-- Either bracket comes one level up; the two kinds need not match. -/
def isClosing (c : Char) : Bool := c == ')' || c == ']'

/-- Quotes and brackets: the characters that can change the state of a scan at
the top. -/
def isStructural (c : Char) : Bool := isQuote c || isOpening c || isClosing c

/-- The depth after a character outside of literals. -/
def bracketDepth (depth : Nat) (c : Char) : Nat :=
  if isOpening c then depth + 1 else if isClosing c then depth - 1 else depth

/-- The state after one more character. -/
def step (state : Nesting) (c : Char) : Nesting :=
  { quoting := state.quoting.step c
    depth := if state.quoting
      = .outside then bracketDepth state.depth c else state.depth }

/-- The state after a whole text. -/
def scan (state : Nesting) (text : Text) : Nesting := text.foldl step state

@[simp] theorem scan_nil (state : Nesting) : state.scan [] = state := rfl

@[simp] theorem scan_cons (state : Nesting) (c : Char) (rest : Text) :
    state.scan (c :: rest) = (state.step c).scan rest := rfl

/-- A scan may be cut anywhere. -/
theorem scan_append (state : Nesting) (a b : Text) :
    state.scan (a ++ b) = (state.scan a).scan b :=
  List.foldl_append

/-- The literal part of the state does not depend on brackets. -/
theorem quoting_scan (state : Nesting) (text : Text) :
    (state.scan text).quoting = state.quoting.scan text := by
  induction text generalizing state with
  | nil => rfl
  | cons c rest ih => exact ih (state.step c)

/-- At the top, a character that is no quote and no bracket leaves the scan at
the top. -/
theorem step_top {c : Char} (h : isStructural c = false) :
    top.step c = top := by
  simp only [isStructural, Bool.or_eq_false_iff] at h
  simp [step, top, bracketDepth, Quoting.step, h]

/-- Whether a scan in this state cuts at this character. -/
def cutsAt (target : Char → Bool) (state : Nesting) (c : Char) : Bool :=
  decide (state = top) && target c && !isStructural c

end Nesting

namespace Text

-- ================================================ cutting at a separator

/-- The parts of a text that is scanned from a given state. -/
def splitFrom (separator : Char) : Nesting → Text → List Text
  | _, [] => [[]]
  | state, c :: rest =>
    if state.cutsAt (· == separator) c then
      [] :: splitFrom separator state rest
    else match splitFrom separator (state.step c) rest with
      | [] => [[c]]
      | part :: parts => (c :: part) :: parts

/-- Cuts a text at the separators on its top level and drops them; there is
always one part more than cuts. -/
def splitTopLevel (separator : Char) (text : Text) : List Text :=
  splitFrom separator .top text

/-- However a text is split, there is a part. -/
theorem splitFrom_ne_nil (separator : Char) (state : Nesting) (text : Text) :
    splitFrom separator state text ≠ [] := by
  cases text with
  | nil => simp [splitFrom]
  | cons c rest =>
    unfold splitFrom
    split
    · simp
    · split <;> simp

/-- A text without a separator is one part. -/
theorem splitTopLevel_ne_nil (separator : Char) (text : Text) :
    splitTopLevel separator text ≠ [] :=
  splitFrom_ne_nil separator .top text

/-- The trimmed parts of a comma list, without those that are blank. -/
def commaParts (text : Text) : List Text :=
  ((splitTopLevel ',' text).map trim).filter (!·.isEmpty)

-- ============================================ the first of some characters

/-- What `breakTopLevel` finds, when the scan starts in a given state. -/
def breakFrom (target : Char → Bool) :
    Nesting → Text → Option (Text × Char × Text)
  | _, [] => none
  | state, c :: rest =>
    if state.cutsAt target c then some ([], c, rest)
    else (breakFrom target (state.step c) rest).map fun (before, hit, after) =>
      (c :: before, hit, after)

/-- The text before the first target on the top level, that target, and the
text after it. -/
def breakTopLevel (target : Char → Bool) (text : Text) :
    Option (Text × Char × Text) :=
  breakFrom target .top text

/-- Breaking a text loses nothing, and what was found is a target. -/
theorem eq_of_breakFrom {target : Char → Bool} {state : Nesting}
    {text before after : Text} {hit : Char}
    (h : breakFrom target state text = some (before, hit, after)) :
    text = before ++ hit :: after ∧ target hit = true := by
  induction text generalizing state before with
  | nil => simp [breakFrom] at h
  | cons c rest ih =>
    unfold breakFrom at h
    split at h
    · next hcut =>
      simp only [Option.some.injEq, Prod.mk.injEq] at h
      obtain ⟨rfl, rfl, rfl⟩ := h
      simp only [Nesting.cutsAt, Bool.and_eq_true] at hcut
      exact ⟨rfl, hcut.1.2⟩
    · simp only [Option.map_eq_some_iff, Prod.mk.injEq] at h
      obtain ⟨⟨before', hit', after'⟩, hrest, rfl, rfl, rfl⟩ := h
      obtain ⟨rfl, htarget⟩ := ih hrest
      exact ⟨rfl, htarget⟩

/-- Nothing is lost where a text is broken, and the character at the break is a
target. -/
theorem eq_of_breakTopLevel {target : Char → Bool} {text before after : Text}
    {hit : Char}
    (h : breakTopLevel target text = some (before, hit, after)) :
    text = before ++ hit :: after ∧ target hit = true :=
  eq_of_breakFrom h

/-- What is left after a break is shorter, so a scan that goes on with it
ends. -/
theorem length_lt_of_breakTopLevel {target : Char → Bool}
    {text before after : Text} {hit : Char}
    (h : breakTopLevel target text = some (before, hit, after)) :
    after.length < text.length := by
  rw [(eq_of_breakTopLevel h).1, List.length_append, List.length_cons]
  omega

end Text

end StyleTree
