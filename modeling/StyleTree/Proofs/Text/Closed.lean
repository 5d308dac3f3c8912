/-
Closed texts: the headings, selectors and declarations that can be read back
from between the marks of a stylesheet. A closed text ends where it began,
outside of literals and of brackets, and has no brace or semicolon on the way
that a reader could take for a mark.

Two readers cross such a text. The search for the end of a heading or of a
declaration makes no cut in it (`Closed.uncut`), and the search for the end of
a block, which counts braces and does not look at brackets, passes it by
(`Balanced`). The second holds of more: of any texts side by side, and of a
block with its braces.
-/
import StyleTree.Css.Parse
import StyleTree.Proofs.Text.Split

namespace StyleTree

open Nesting (Along)

namespace Nesting

/-- No brace stands outside of literals. -/
def Braceless (state : Nesting) (c : Char) : Prop :=
  state.quoting = .outside → c ≠ '{' ∧ c ≠ '}'

/-- Nothing is read outside of literals that a closed text must not have. -/
def Admits (state : Nesting) (c : Char) : Prop :=
  state.quoting = .outside →
    c ≠ '{' ∧ c ≠ '}' ∧ (c = ';' ∨ isClosing c = true → state.depth ≠ 0)

instance (state : Nesting) (c : Char) : Decidable (Admits state c) :=
  inferInstanceAs (Decidable (_ → _ ∧ _ ∧ _))

/-- A character that is admitted is no brace, unless it is in a literal. -/
theorem Admits.braceless {state : Nesting} {c : Char} (h : Admits state c) :
    Braceless state c :=
  fun hout => ⟨(h hout).1, (h hout).2.1⟩

/-- A character that is no mark and closes nothing may stand anywhere. -/
theorem admits_of_plain (state : Nesting) {c : Char} (hopen : c ≠ '{')
    (hclose : c ≠ '}') (hplain : ¬ (c = ';' ∨ isClosing c = true)) :
    Admits state c :=
  fun _ => ⟨hopen, hclose, fun h => absurd h hplain⟩

end Nesting

namespace Text

variable {a b text : Text} {state : Nesting} {target : Char → Bool}

/-- The text ends outside of literals and brackets, closes no bracket that is
not open, and outside of literals has no brace and, outside of brackets, no
semicolon. -/
def Closed (text : Text) : Prop :=
  Along Nesting.Admits .top text ∧ Nesting.top.scan text = .top

instance (text : Text) : Decidable text.Closed :=
  inferInstanceAs (Decidable (_ ∧ _))

theorem Closed.append (ha : Closed a) (hb : Closed b) : Closed (a ++ b) :=
  Nesting.along_top_append ha hb

/-- A closed text has no braces outside of literals. -/
theorem Closed.braceless (h : Closed text) :
    Along Nesting.Braceless .top text :=
  h.1.mono fun _ _ => Nesting.Admits.braceless

theorem Closed.quoting_scan (h : Closed text) :
    (Nesting.top.scan text).quoting = .outside := by
  rw [h.2]
  rfl

-- ==================================================== no cut is made

/-- The characters that end a heading, a declaration or a block. -/
def IsMark (c : Char) : Prop := c = '{' ∨ c = '}' ∨ c = ';'

/-- Outside of everything, a mark that is looked for makes a cut. -/
theorem cutsAt_top {c : Char} (hc : target c = true) (hmark : IsMark c) :
    Nesting.top.cutsAt target c = true := by
  unfold Nesting.cutsAt
  rw [hc]
  rcases hmark with rfl | rfl | rfl <;> decide

/-- A closed text is not cut at any mark. -/
theorem Closed.uncut (h : Closed text)
    (htarget : ∀ c, target c = true → IsMark c) :
    Along (Uncut target) .top text := by
  refine h.1.mono fun state c hadmits => ?_
  unfold Uncut Nesting.cutsAt
  by_cases htop : state = .top
  · cases hc : target c with
    | false => simp
    | true =>
      subst htop
      obtain ⟨hopen, hclose, hsemicolon⟩ := hadmits rfl
      rcases htarget c hc with rfl | rfl | rfl
      · exact absurd rfl hopen
      · exact absurd rfl hclose
      · exact absurd rfl (hsemicolon (.inl rfl))
  · simp [htop]

/-- The first mark behind a closed text is the first one at all. -/
theorem Closed.breakTopLevel_append_cons (h : Closed a)
    (htarget : ∀ c, target c = true → IsMark c) {c : Char}
    (hc : target c = true) :
    breakTopLevel target (a ++ c :: b) = some (a, c, b) := by
  refine breakFrom_append_cons (h.uncut htarget) ?_
  rw [h.2]
  exact cutsAt_top hc (htarget c hc)

-- ================================================== balanced texts

/-- The search for the end of a block passes the text by. -/
def Balanced (text : Text) : Prop :=
  ∀ depth rest, Css.splitBlock .outside depth (text ++ rest)
    = (text ++ (Css.splitBlock .outside depth rest).1,
      (Css.splitBlock .outside depth rest).2)

theorem balanced_nil : Balanced [] := fun _ _ => rfl

theorem Balanced.append (ha : Balanced a) (hb : Balanced b) :
    Balanced (a ++ b) := by
  intro depth rest
  rw [List.append_assoc, ha, hb, List.append_assoc]

/-- What is no brace belongs to the block. -/
theorem splitBlock_cons {quoting : Quoting} {depth : Nat} {c : Char}
    (h : quoting = .outside → c ≠ '{' ∧ c ≠ '}') (rest : Text) :
    Css.splitBlock quoting depth (c :: rest)
      = (c :: (Css.splitBlock (quoting.step c) depth rest).1,
        (Css.splitBlock (quoting.step c) depth rest).2) := by
  have hdepth : (if quoting = .outside then
      (if c = '{' then depth + 1 else if c = '}' then depth - 1 else depth)
      else depth) = depth := by
    split
    · next hout => rw [if_neg (h hout).1, if_neg (h hout).2]
    · rfl
  rw [Css.splitBlock, hdepth]
  rintro hout - hc
  exact (h hout).2 hc

/-- So does a text without braces. -/
theorem splitBlock_append (h : Along Nesting.Braceless state text)
    (depth : Nat) (rest : Text) :
    Css.splitBlock state.quoting depth (text ++ rest)
      = (text ++ (Css.splitBlock (state.scan text).quoting depth rest).1,
        (Css.splitBlock (state.scan text).quoting depth rest).2) := by
  induction text generalizing state with
  | nil => rfl
  | cons c text ih =>
    rw [List.cons_append, splitBlock_cons h.1]
    show (c :: (Css.splitBlock (state.step c).quoting depth _).1,
      (Css.splitBlock (state.step c).quoting depth _).2) = _
    rw [ih h.2]
    rfl

/-- A closed text is balanced, having no braces. -/
theorem Closed.balanced (h : Closed text) : Balanced text := by
  intro depth rest
  have hpass := splitBlock_append h.braceless depth rest
  rwa [h.2] at hpass

/-- A balanced text may have braces around it. -/
theorem Balanced.braces (h : Balanced text) :
    Balanced ('{' :: text ++ ['}']) := by
  intro depth rest
  have hopen (after : Text) : Css.splitBlock .outside depth ('{' :: after)
      = ('{' :: (Css.splitBlock .outside (depth + 1) after).1,
        (Css.splitBlock .outside (depth + 1) after).2) := by
    rw [Css.splitBlock]
    · rfl
    · exact fun _ _ hc => absurd hc (by decide)
  have hclose : Css.splitBlock .outside (depth + 1) ('}' :: rest)
      = ('}' :: (Css.splitBlock .outside depth rest).1,
        (Css.splitBlock .outside depth rest).2) := by
    rw [Css.splitBlock]
    · rfl
    · exact fun _ hdepth => absurd hdepth (by omega)
  rw [List.cons_append, List.cons_append, List.append_assoc, hopen, h,
    List.singleton_append, hclose]
  simp

/-- A block ends at its brace. -/
theorem Balanced.splitBlock (h : Balanced text) (rest : Text) :
    Css.splitBlock .outside 0 (text ++ '}' :: rest) = (text, rest) := by
  rw [h, Css.splitBlock, List.append_nil]

end Text

end StyleTree
