/-
The parts of a text, characterised. Cutting at the top level loses nothing but
the separators, it leaves no part that could be cut further, and it makes no
cut behind a text that is not over, that is, does not end outside of literals
and of brackets. Only one list of texts is like that (`splitTopLevel_eq_iff`),
whatever the text leaves open or closes too often, and whatever is escaped in
its literals.

The induction is over texts that are scanned from any state. Only the first
part goes on from there. Behind a cut the scan is at the top, so every other
part can be judged on its own (`areParts_top_iff`).

The first part is also what stands in front of the first separator that a
search finds, and the others are the parts of what stands behind it
(`splitTopLevel_eq_of_break`).
-/
import StyleTree.Proofs.Text.Split

namespace StyleTree.Text

open Nesting (Along)

variable {separator : Char} {state : Nesting} {text : Text} {parts : List Text}

-- ==================================================== what cutting leaves

/-- Splitting gives parts: no cut is left inside of one, and every separator
between them was one. -/
theorem areParts_splitFrom (separator : Char) (state : Nesting) (text : Text) :
    AreParts separator state (splitFrom separator state text) := by
  induction text generalizing state with
  | nil => exact Nesting.along_nil
  | cons c rest ih =>
    cases hcut : state.cutsAt (· == separator) c with
    | true =>
      have htop : state = .top := by
        simp only [Nesting.cutsAt, Bool.and_eq_true, decide_eq_true_eq] at hcut
        exact hcut.1.1
      have hparts := ih state
      rw [splitFrom_cons_of_cutsAt rest hcut]
      obtain ⟨first, others, heq⟩ :=
        List.exists_cons_of_ne_nil (splitFrom_ne_nil separator state rest)
      rw [heq] at hparts ⊢
      exact ⟨Nesting.along_nil, htop, htop ▸ hparts⟩
    | false =>
      have hparts := ih (state.step c)
      obtain ⟨first, others, heq⟩ := List.exists_cons_of_ne_nil
        (splitFrom_ne_nil separator (state.step c) rest)
      rw [splitFrom, if_neg (by simp [hcut]), heq]
      rw [heq] at hparts
      -- the character joins the first part, whether or not others follow
      cases others with
      | nil => exact ⟨hcut, hparts⟩
      | cons next others => exact ⟨⟨hcut, hparts.1⟩, hparts.2⟩

/-- Cutting drops the separators and nothing else. -/
theorem intercalate_splitFrom (separator : Char) (state : Nesting)
    (text : Text) :
    [separator].intercalate (splitFrom separator state text) = text := by
  induction text generalizing state with
  | nil => rfl
  | cons c rest ih =>
    cases hcut : state.cutsAt (· == separator) c with
    | true =>
      -- the character that is dropped comes back as the separator
      have hc : c = separator := by
        simp only [Nesting.cutsAt, Bool.and_eq_true, beq_iff_eq] at hcut
        exact hcut.1.2
      rw [splitFrom_cons_of_cutsAt rest hcut,
        intercalate_cons_of_ne_nil (splitFrom_ne_nil separator state rest), ih,
        hc]
      rfl
    | false =>
      have hjoin := ih (state.step c)
      obtain ⟨first, others, heq⟩ := List.exists_cons_of_ne_nil
        (splitFrom_ne_nil separator (state.step c) rest)
      rw [splitFrom, if_neg (by simp [hcut]), heq]
      rw [heq] at hjoin
      show [separator].intercalate ((c :: first) :: others) = c :: rest
      rw [← hjoin]
      cases others with
      | nil => rfl
      | cons next others =>
        rw [List.intercalate_cons_cons, List.intercalate_cons_cons]
        rfl

-- ============================================== the only parts of a text

/-- A text stays whole exactly if no cut is made in it. -/
theorem splitTopLevel_eq_singleton_iff :
    splitTopLevel separator text = [text]
      ↔ Along (Uncut (· == separator)) .top text := by
  constructor
  · intro h
    have hparts := areParts_splitFrom separator .top text
    rwa [show splitFrom separator .top text = [text] from h] at hparts
  · exact splitFrom_eq_singleton

/-- Parts of a scan from the top, each judged on its own. -/
theorem areParts_top_iff :
    AreParts separator .top parts ↔ parts ≠ []
      ∧ (∀ part ∈ parts, splitTopLevel separator part = [part])
      ∧ ∀ part ∈ parts.dropLast, Nesting.top.scan part = .top := by
  simp only [splitTopLevel_eq_singleton_iff]
  induction parts with
  | nil => exact ⟨False.elim, fun h => h.1 rfl⟩
  | cons part others ih =>
    cases others with
    | nil =>
      show Along _ _ _ ↔ _
      simp
    | cons next others =>
      rw [List.dropLast_cons_cons, List.forall_mem_cons (a := part),
        List.forall_mem_cons (a := part)]
      constructor
      · rintro ⟨huncut, hends, hothers⟩
        obtain ⟨-, huncuts, hall⟩ := ih.1 hothers
        exact ⟨List.cons_ne_nil _ _, ⟨huncut, huncuts⟩, hends, hall⟩
      · rintro ⟨-, ⟨huncut, huncuts⟩, hends, hall⟩
        exact ⟨huncut, hends, ih.2 ⟨List.cons_ne_nil _ _, huncuts, hall⟩⟩

/-- The parts of a text are the only texts, at least one, that give the text
when they are joined, of which none can be cut, and of which each but the last
ends outside of literals and of brackets. -/
theorem splitTopLevel_eq_iff
    (hseparator : Nesting.isStructural separator = false) :
    splitTopLevel separator text = parts ↔ parts ≠ []
      ∧ [separator].intercalate parts = text
      ∧ (∀ part ∈ parts, splitTopLevel separator part = [part])
      ∧ ∀ part ∈ parts.dropLast, Nesting.top.scan part = .top := by
  constructor
  · rintro rfl
    obtain ⟨hne, hwhole, hends⟩ :=
      areParts_top_iff.1 (areParts_splitFrom separator .top text)
    exact ⟨hne, intercalate_splitFrom separator .top text, hwhole, hends⟩
  · rintro ⟨hne, rfl, hwhole, hends⟩
    exact splitFrom_intercalate hseparator
      (areParts_top_iff.2 ⟨hne, hwhole, hends⟩)

/-- What stands between commas, where others are in brackets or in a literal
with an escaped quote. One bracket closes nothing, and in the end a bracket and
a literal stay open. -/
def unbalancedParts : List Text :=
  [":is(a, b)".toList, " \"x\\\",(y\"".toList, " z)".toList, [], " w".toList,
    " (u, 'v,".toList]

theorem splitTopLevel_eq_iff_unbalanced :
    Nesting.isStructural ',' = false
    ∧ splitTopLevel ',' ":is(a, b), \"x\\\",(y\", z),, w, (u, 'v,".toList
      = unbalancedParts :=
  ⟨by decide, (splitTopLevel_eq_iff (by decide)).2
    ⟨by decide, by decide, by decide, by decide⟩⟩

-- ====================================================== the first part

/-- Splitting is breaking off the first part and splitting the rest at the top
level. -/
theorem splitFrom_eq_of_break (separator : Char) (state : Nesting)
    (text : Text) :
    splitFrom separator state text
      = match breakFrom (· == separator) state text with
        | none => [text]
        | some (before, _, after) =>
          before :: splitTopLevel separator after := by
  induction text generalizing state with
  | nil => rfl
  | cons c rest ih =>
    cases hcut : state.cutsAt (· == separator) c with
    | true =>
      have htop : state = .top := by
        simp only [Nesting.cutsAt, Bool.and_eq_true, decide_eq_true_eq] at hcut
        exact hcut.1.1
      rw [splitFrom_cons_of_cutsAt rest hcut, breakFrom, if_pos hcut, htop]
      rfl
    | false =>
      rw [splitFrom, if_neg (by simp [hcut]), breakFrom,
        if_neg (by simp [hcut]), ih (state.step c)]
      cases breakFrom (· == separator) (state.step c) rest <;> rfl

/-- The parts of a text are the text in front of the first separator and the
parts of the text behind it. -/
theorem splitTopLevel_eq_of_break (separator : Char) (text : Text) :
    splitTopLevel separator text
      = match breakTopLevel (· == separator) text with
        | none => [text]
        | some (before, _, after) => before :: splitTopLevel separator after :=
  splitFrom_eq_of_break separator .top text

end StyleTree.Text
