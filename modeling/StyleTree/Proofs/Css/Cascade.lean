/-
What a stylesheet says, one thing after the other, and which of it counts. The
nodes are read as the list of their declarations and sealed blocks in document
order, each with the headings around it (`occurrencesAll`). On such a list the
cascade is two definitions: what is overridden by the rest of the list
(`Occurrence.Survives`), and which declaration of a place takes effect in the
end (`winner`).

# Dropping what is overridden

The survivors of a list are marked by `verdicts`. Dropping the others cannot
change a winner (`winner_marked_verdicts`): the last declaration of a place and
its last important one are never overridden, and a winner is one of them.

# Reading one declaration

The place of a declaration is what stands before its first colon, in the
context and under the selector, and its importance is read from the end of
what stands behind: the word in any case, after a mark, with blanks in between
and behind (`isImportant_iff`).
-/
import Mathlib.Data.List.Infix
import Mathlib.Data.List.TakeWhile
import StyleTree.Css.Prune
import StyleTree.Proofs.Text.Trim

namespace StyleTree.Css

-- ======================================================= marked lists

section Marked

variable {α β : Type}

/-- The members of a list that are marked. -/
def marked (marks : List Bool) (xs : List α) : List α :=
  ((marks.zip xs).filter (·.1)).map (·.2)

@[simp] theorem marked_nil (marks : List Bool) :
    marked marks ([] : List α) = [] := by
  simp [marked]

@[simp] theorem marked_cons (mark : Bool) (marks : List Bool) (x : α)
    (xs : List α) :
    marked (mark :: marks) (x :: xs)
      = if mark then x :: marked marks xs else marked marks xs := by
  cases mark <;> rfl

/-- The marks of a list that is put together are cut where it is. -/
theorem marked_append (marks : List Bool) (xs ys : List α) :
    marked marks (xs ++ ys)
      = marked (marks.take xs.length) xs
        ++ marked (marks.drop xs.length) ys := by
  induction xs generalizing marks with
  | nil => simp
  | cons x xs ih =>
    cases marks with
    | nil => simp [marked]
    | cons mark marks =>
      simp only [List.cons_append, List.length_cons, List.take_succ_cons,
        List.drop_succ_cons, marked_cons, ih]
      cases mark <;> rfl

/-- Marks do not depend on what the members are. -/
theorem marked_map (f : α → β) (marks : List Bool) (xs : List α) :
    marked marks (xs.map f) = (marked marks xs).map f := by
  induction xs generalizing marks with
  | nil => simp
  | cons x xs ih =>
    cases marks with
    | nil => rfl
    | cons mark marks =>
      rw [List.map_cons, marked_cons, marked_cons, ih]
      cases mark <;> rfl

/-- What is marked was there. -/
theorem marked_subset (marks : List Bool) (xs : List α) :
    marked marks xs ⊆ xs := by
  intro x hx
  obtain ⟨⟨mark, y⟩, hmem, rfl⟩ := List.mem_map.1 hx
  exact (List.of_mem_zip (List.mem_filter.1 hmem).1).2

end Marked

-- ========================================================= importance

/-- A value ends in an exclamation mark and the word `important`, the letters
of the word in either case, with any blanks between the two and behind. -/
def EndsImportant (value : Text) : Prop :=
  ∃ before gap word trail,
    value = before ++ '!' :: (gap ++ word) ++ trail
      ∧ word.map Char.toLower = "important".toList
      ∧ (∀ c ∈ gap, isBlank c = true) ∧ ∀ c ∈ trail, isBlank c = true

/-- No letter is an exclamation mark in lower case. -/
theorem toLower_eq_bang_iff {c : Char} : c.toLower = '!' ↔ c = '!' := by
  refine ⟨fun h => ?_, fun h => by rw [h]; rfl⟩
  have hcode := congrArg Char.toNat h
  rw [Text.toNat_toLower] at hcode
  have hbang : '!'.toNat = 33 := rfl
  apply Char.toNat_inj.1
  split at hcode <;> omega

/-- Behind the word `important` there is nothing left to trim. -/
theorem isBlank_getLast?_append {word : Text}
    (hword : word.map Char.toLower = "important".toList) (front : Text) :
    ∀ c ∈ (front ++ word).getLast?, isBlank c = false := by
  intro c hc
  have hne : word ≠ [] := by
    rintro rfl
    cases hword
  rw [List.getLast?_append, List.getLast?_eq_some_getLast hne] at hc
  cases hc
  have hlower := congrArg List.getLast? hword
  rw [List.getLast?_map, List.getLast?_eq_some_getLast hne] at hlower
  rw [← Text.isBlank_toLower, Option.some_inj.1 hlower]
  decide

/-- Importance is read from the end: the blanks, the word, the blanks before
it, and the mark. -/
theorem isImportant_iff {value : Text} :
    isImportant value = true ↔ EndsImportant value := by
  unfold isImportant
  constructor
  · intro h
    split at h
    · next lowered hsuffix =>
      rw [List.isSuffixOf?_eq_some_iff_append_eq] at hsuffix
      obtain ⟨front, word, hvalue, rfl, hword⟩ :=
        List.map_eq_append_iff.1 hsuffix.symm
      rw [beq_iff_eq, Text.trimEnd_map_toLower, List.getLast?_map,
        Option.map_eq_some_iff] at h
      obtain ⟨c, hlast, hc⟩ := h
      rw [toLower_eq_bang_iff.1 hc, List.getLast?_eq_some_iff] at hlast
      -- the trimmed front ends in the mark; what was trimmed away are the gaps
      obtain ⟨before, hbefore⟩ := hlast
      obtain ⟨gap, hgap, hfront⟩ := Text.exists_eq_trimEnd_append front
      obtain ⟨trail, htrail, heq⟩ := Text.exists_eq_trimEnd_append value
      refine ⟨before, gap, word, trail, ?_, hword, hgap, htrail⟩
      rw [heq, hvalue, hfront, hbefore]
      simp
    · cases h
  · rintro ⟨before, gap, word, trail, rfl, hword, hgap, htrail⟩
    have hvalue : before ++ '!' :: (gap ++ word)
        = (before ++ '!' :: gap) ++ word := by simp
    have hsuffix : "important".toList.isSuffixOf?
        (((before ++ '!' :: gap) ++ word).map Char.toLower)
          = some ((before ++ '!' :: gap).map Char.toLower) := by
      rw [List.isSuffixOf?_eq_some_iff_append_eq, ← hword, ← List.map_append]
    -- behind the word only the gap is trimmed
    have hfront : Text.trimEnd (before ++ '!' :: gap) = before ++ ['!'] := by
      rw [List.append_cons, Text.trimEnd_append _ hgap]
      exact Text.trimEnd_eq_self (by simp; decide)
    rw [hvalue, Text.trimEnd_append _ htrail,
      Text.trimEnd_eq_self (isBlank_getLast?_append hword _), hsuffix]
    dsimp only
    rw [Text.trimEnd_map_toLower, hfront]
    simp

-- ======================================================== occurrences

/-- A declaration is cut in two exactly if it has a colon, and its first colon
is where. -/
theorem splitDeclaration?_eq (text : Text) :
    splitDeclaration? text
      = if ':' ∈ text then
          some (Text.trim (text.takeWhile (· != ':')),
            (text.dropWhile (· != ':')).tail)
        else none := by
  have hdrop : text.dropWhile (· != ':') = [] ↔ ':' ∉ text := by
    rw [List.dropWhile_eq_nil_iff]
    refine ⟨fun h hmem => ?_, fun h c hc => ?_⟩
    · exact absurd (h ':' hmem) (by decide)
    · exact bne_iff_ne.2 fun heq => h (heq ▸ hc)
  unfold splitDeclaration?
  cases htext : text.dropWhile (· != ':') with
  | nil => rw [if_neg (hdrop.1 htext)]
  | cons c value =>
    have hcolon : ':' ∈ text := by
      by_contra h
      rw [hdrop.2 h] at htext
      cases htext
    rw [if_pos hcolon]
    rfl

/-- Without a colon there is nothing to cut at. -/
theorem splitDeclaration?_eq_none_iff {text : Text} :
    splitDeclaration? text = none ↔ ':' ∉ text := by
  rw [splitDeclaration?_eq]
  split <;> simp [*]

/-- One thing that a stylesheet says: a declaration of a rule, or a sealed
block. -/
inductive Occurrence where
  | declaration (context selector text : Text)
  | sealed (context text : Text)
  deriving DecidableEq, Repr

namespace Occurrence

/-- What a declaration competes for: its context, its selector and the trimmed
text before its first colon; nothing if it has no colon. -/
def place? : Occurrence → Option Place
  | .declaration context selector text =>
    if ':' ∈ text then
      some ⟨context, selector, Text.trim (text.takeWhile (· != ':'))⟩
    else none
  | .sealed .. => none

/-- Whether a declaration is important, which its value says: the text behind
its first colon. -/
def important : Occurrence → Bool
  | .declaration _ _ text =>
    decide (':' ∈ text) && isImportant (text.dropWhile (· != ':')).tail
  | .sealed .. => false

section

variable {context selector text property value : Text}

/-- The place of a declaration that is cut in two. -/
theorem place?_of_eq_some
    (h : splitDeclaration? text = some (property, value)) :
    (declaration context selector text).place?
      = some ⟨context, selector, property⟩ := by
  rw [splitDeclaration?_eq] at h
  unfold place?
  split at h
  · next hcolon =>
    cases h
    exact if_pos hcolon
  · cases h

/-- Its value decides whether it is important. -/
theorem important_of_eq_some
    (h : splitDeclaration? text = some (property, value)) :
    (declaration context selector text).important = isImportant value := by
  rw [splitDeclaration?_eq] at h
  unfold important
  split at h
  · next hcolon =>
    cases h
    show (decide (':' ∈ text) && isImportant _) = _
    rw [decide_eq_true hcolon, Bool.true_and]
  · cases h

/-- A text without a colon competes for nothing. -/
theorem place?_of_eq_none (h : splitDeclaration? text = none) :
    (declaration context selector text).place? = none := by
  rw [splitDeclaration?_eq] at h
  unfold place?
  split at h
  · cases h
  · next hcolon => exact if_neg hcolon

end

/-- Nothing further on overrides it: no later declaration of the same place,
where an important one yields to important ones only, and no equal sealed
block. -/
def Survives (later : List Occurrence) (o : Occurrence) : Prop :=
  match o with
  | .declaration _ _ text =>
    ':' ∉ text
      ∨ (o.important = true
        ∧ ∀ l ∈ later, l.place? = o.place? → l.important = false)
      ∨ (o.important = false ∧ ∀ l ∈ later, l.place? ≠ o.place?)
  | .sealed .. => o ∉ later

instance (later : List Occurrence) (o : Occurrence) :
    Decidable (o.Survives later) :=
  match o with
  | .declaration .. => inferInstanceAs (Decidable (_ ∨ _ ∧ _ ∨ _ ∧ _))
  | .sealed .. => inferInstanceAs (Decidable (_ ∉ _))

end Occurrence

mutual

/-- What a node says inside of a context, in document order. The context of
what is in a block are all headings around it, from the outermost to the
innermost, and a unit separator behind each. -/
def Node.occurrences (context : Text) : Node → List Occurrence
  | .statement _ => []
  | .rule selector declarations =>
    declarations.map (.declaration context selector)
  | .sealed text => [.sealed context text]
  | .block heading children =>
    occurrencesAll (context ++ heading ++ ['\x1f']) children
termination_by structural node => node

/-- What nodes say inside of a context, in document order. -/
def occurrencesAll (context : Text) : List Node → List Occurrence
  | [] => []
  | node :: rest => node.occurrences context ++ occurrencesAll context rest
termination_by structural nodes => nodes

end

/-- What two stretches of nodes say, they say one after the other. -/
theorem occurrencesAll_append (context : Text) (a b : List Node) :
    occurrencesAll context (a ++ b)
      = occurrencesAll context a ++ occurrencesAll context b := by
  induction a with
  | nil => rfl
  | cons node rest ih =>
    rw [List.cons_append, occurrencesAll, occurrencesAll, ih,
      List.append_assoc]

-- =========================================================== verdicts

/-- For each member of a list whether it survives the rest of the list and
what comes after. -/
def verdicts (after : List Occurrence) : List Occurrence → List Bool
  | [] => []
  | o :: rest => decide (o.Survives (rest ++ after)) :: verdicts after rest

/-- There is a verdict for every member. -/
@[simp] theorem length_verdicts (after occurrences : List Occurrence) :
    (verdicts after occurrences).length = occurrences.length := by
  induction occurrences with
  | nil => rfl
  | cons o rest ih => rw [verdicts, List.length_cons, List.length_cons, ih]

/-- The first part of a list is judged by the second and by what comes
after. -/
theorem verdicts_append (after a b : List Occurrence) :
    verdicts after (a ++ b) = verdicts (b ++ after) a ++ verdicts after b := by
  induction a with
  | nil => rfl
  | cons o rest ih =>
    rw [List.cons_append, verdicts, verdicts, ih, List.append_assoc]
    rfl

-- ============================================================ winners

/-- What takes effect of the occurrences with a property: the last important
one, or without one the last. -/
def effective (p : Occurrence → Bool) (occurrences : List Occurrence) :
    Option Occurrence :=
  (occurrences.reverse.find? fun o => p o && o.important).or
    (occurrences.reverse.find? p)

/-- The declaration of a place that takes effect. -/
def winner (place : Place) (occurrences : List Occurrence) :
    Option Occurrence :=
  effective (fun o => o.place? = some place) occurrences

/-- What is asked about the last member with a property does not change if no
member is dropped that is followed by none. -/
theorem find?_reverse_marked {p : Occurrence → Bool}
    (h : ∀ o later, p o = true → (∀ l ∈ later, p l = false) →
      o.Survives later) (occurrences : List Occurrence) :
    (marked (verdicts [] occurrences) occurrences).reverse.find? p
      = occurrences.reverse.find? p := by
  induction occurrences with
  | nil => rfl
  | cons o rest ih =>
    rw [verdicts, List.append_nil, marked_cons]
    by_cases hsurvives : o.Survives rest
    · rw [decide_eq_true hsurvives, if_pos rfl, List.reverse_cons,
        List.reverse_cons, List.find?_append, List.find?_append, ih]
    · rw [decide_eq_false hsurvives, if_neg Bool.false_ne_true, ih,
        List.reverse_cons, List.find?_append]
      cases hfound : rest.reverse.find? p with
      | some l => rfl
      | none =>
        -- nothing behind `o` has the property, so `o` has not got it either
        have hrest : ∀ l ∈ rest, p l = false := fun l hl =>
          Bool.eq_false_iff.2
            (List.find?_eq_none.1 hfound l (List.mem_reverse.2 hl))
        have ho : p o = false :=
          Bool.eq_false_iff.2 fun ho => hsurvives (h o rest ho hrest)
        rw [List.find?_singleton, ho]
        rfl

/-- Dropping what is overridden changes no winner. A winner is the last one of
its place, among the important ones or among all, and the last one of its kind
has nothing behind it that overrides it. -/
theorem winner_marked_verdicts (place : Place)
    (occurrences : List Occurrence) :
    winner place (marked (verdicts [] occurrences) occurrences)
      = winner place occurrences := by
  unfold winner effective
  congr 1
  · apply find?_reverse_marked
    intro o later ho hlater
    rw [Bool.and_eq_true, decide_eq_true_eq] at ho
    cases o with
    | sealed context text => cases ho.2
    | declaration context selector text =>
      refine .inr (.inl ⟨ho.2, fun l hl hplace => ?_⟩)
      have hl' : (decide (l.place? = some place) && l.important) = false :=
        hlater l hl
      rw [hplace, ho.1] at hl'
      simpa using hl'
  · apply find?_reverse_marked
    intro o later ho hlater
    rw [decide_eq_true_eq] at ho
    -- nothing behind `o` competes with it, so it survives either way
    have hnone : ∀ l ∈ later, l.place? ≠ o.place? := fun l hl hplace => by
      have hl' := hlater l hl
      rw [hplace, ho] at hl'
      simp at hl'
    cases o with
    | sealed context text => cases ho
    | declaration context selector text =>
      cases himportant
          : (Occurrence.declaration context selector text).important with
      | true =>
        exact .inr (.inl ⟨himportant, fun l hl hplace =>
          absurd hplace (hnone l hl)⟩)
      | false => exact .inr (.inr ⟨himportant, hnone⟩)

end StyleTree.Css
