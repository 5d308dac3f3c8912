/-
Cutting a text at its top level. The state of the scan says where a separator
cuts, so a text is cut as its pieces are: what has no cut in it goes whole into
the first part of the rest (`splitFrom_append`), and a separator at the top
starts a new part (`splitFrom_cons_of_cutsAt`). Texts that were left between
cuts (`AreParts`) are cut apart where they were joined
(`splitFrom_intercalate`), and so are texts that are one part each and end at
the top (`Unbroken`).

`exists_splitFrom_eq_cons` is the converse view, from the parts: each was read
from the top, has no cut left in it, and is as good as the text was.

Blanks around a text do not matter to a scan from the top, so what holds along
a text holds along its trimmed form (`along_trim`).
-/
import StyleTree.Proofs.Text.Scan
import StyleTree.Proofs.Text.Trim

namespace StyleTree

namespace Text

open Nesting (Along Matched)

variable {separator : Char} {state : Nesting} {a b text : Text}

/-- No cut is made at a character. -/
def Uncut (target : Char → Bool) (state : Nesting) (c : Char) : Prop :=
  state.cutsAt target c = false

instance (target : Char → Bool) (state : Nesting) (c : Char) :
    Decidable (Uncut target state c) :=
  inferInstanceAs (Decidable (_ = _))

/-- Inside of more brackets fewer cuts are made. -/
theorem Uncut.raise {target : Char → Bool} {c : Char} (k : Nat)
    (h : Uncut target state c) : Uncut target (state.raise k) c := by
  unfold Uncut Nesting.cutsAt at *
  by_cases htop : state.raise k = .top
  · have hstate : state = .top := by
      obtain ⟨quoting, depth⟩ := state
      simp only [Nesting.raise, Nesting.top, Nesting.mk.injEq] at htop ⊢
      exact ⟨htop.1, by omega⟩
    rw [htop]
    rwa [hstate] at h
  · simp [htop]

/-- At a cut the part in front of it is done. -/
theorem splitFrom_cons_of_cutsAt {c : Char} (rest : Text)
    (h : state.cutsAt (· == separator) c = true) :
    splitFrom separator state (c :: rest)
      = [] :: splitFrom separator state rest := by
  rw [splitFrom, if_pos h]

/-- A stretch without a cut goes whole into the first part. -/
theorem splitFrom_append (h : Along (Uncut (· == separator)) state a)
    {part : Text} {parts : List Text}
    (hb : splitFrom separator (state.scan a) b = part :: parts) :
    splitFrom separator state (a ++ b) = (a ++ part) :: parts := by
  induction a generalizing state with
  | nil => exact hb
  | cons c rest ih =>
    rw [List.cons_append, splitFrom,
      if_neg (by rw [show state.cutsAt _ c = false from h.1]; simp),
      ih h.2 hb]
    rfl

/-- A text without a cut is its own only part. -/
theorem splitFrom_eq_singleton (h : Along (Uncut (· == separator)) state a) :
    splitFrom separator state a = [a] := by
  have hsplit := splitFrom_append h
    (show splitFrom separator (state.scan a) [] = [[]] from rfl)
  rwa [List.append_nil] at hsplit

/-- The parts of a text: the first goes on from where the scan stands, the
others start at the top. None has a cut in it, all end outside of literals if
the text does, and what holds along the text holds along its parts. -/
theorem exists_splitFrom_eq_cons (separator : Char)
    {p : Nesting → Char → Prop} (hp : Along p state text)
    (hout : (state.scan text).quoting = .outside) :
    ∃ first others, splitFrom separator state text = first :: others
      ∧ (Along p state first ∧ Along (Uncut (· == separator)) state first
        ∧ (state.scan first).quoting = .outside)
      ∧ ∀ part ∈ others, Along p .top part
        ∧ Along (Uncut (· == separator)) .top part
        ∧ (Nesting.top.scan part).quoting = .outside := by
  induction text generalizing state with
  | nil => exact ⟨[], [], rfl, ⟨trivial, trivial, hout⟩, by simp⟩
  | cons c rest ih =>
    obtain ⟨first, others, heq, hfirst, hothers⟩ := ih hp.2 hout
    cases hcut : state.cutsAt (· == separator) c with
    | true =>
      -- a cut is made at the top only, so the first part goes on from there
      have hcut' := hcut
      simp only [Nesting.cutsAt, Bool.and_eq_true, decide_eq_true_eq,
        Bool.not_eq_true'] at hcut'
      obtain ⟨⟨htop, -⟩, hplain⟩ := hcut'
      have hstep : state.step c = state := by
        rw [htop]
        exact Nesting.step_top hplain
      rw [hstep] at heq hfirst
      refine ⟨[], first :: others, ?_, ⟨trivial, trivial, ?_⟩, ?_⟩
      · rw [splitFrom_cons_of_cutsAt _ hcut, heq]
      · rw [htop]
        rfl
      · rw [htop] at hfirst
        exact List.forall_mem_cons.2 ⟨hfirst, hothers⟩
    | false =>
      refine ⟨c :: first, others, ?_, ⟨⟨hp.1, hfirst.1⟩,
        ⟨hcut, hfirst.2.1⟩, hfirst.2.2⟩, hothers⟩
      rw [splitFrom, if_neg (by rw [hcut]; simp), heq]

/-- What holds along a text holds along its parts. No part has a cut inside or
leaves a literal open. -/
theorem of_mem_splitTopLevel {p : Nesting → Char → Prop}
    (hp : Along p .top text)
    (hout : (Nesting.top.scan text).quoting = .outside)
    {part : Text} (h : part ∈ splitTopLevel separator text) :
    Along p .top part ∧ Along (Uncut (· == separator)) .top part
      ∧ (Nesting.top.scan part).quoting = .outside := by
  obtain ⟨first, others, heq, hfirst, hothers⟩ :=
    exists_splitFrom_eq_cons separator hp hout
  rw [splitTopLevel, heq] at h
  rcases List.mem_cons.1 h with rfl | h
  · exact hfirst
  · exact hothers part h

-- ================================================ texts in one part

/-- No cut is made in the text, and the scan is at the top again behind it. -/
def Unbroken (separator : Char) (text : Text) : Prop :=
  Along (Uncut (· == separator)) .top text ∧ Nesting.top.scan text = .top

instance (separator : Char) (text : Text) :
    Decidable (Unbroken separator text) :=
  inferInstanceAs (Decidable (_ ∧ _))

/-- A text of plain characters is not cut. -/
theorem unbroken_of_plain
    (h : ∀ c ∈ text, c ≠ separator ∧ Nesting.isStructural c = false) :
    Unbroken separator text := by
  induction text with
  | nil => exact ⟨trivial, rfl⟩
  | cons c rest ih =>
    obtain ⟨⟨hc, hplain⟩, hrest⟩ := List.forall_mem_cons.1 h
    have hstep := Nesting.step_top hplain
    obtain ⟨huncut, hends⟩ := ih hrest
    refine ⟨⟨?_, ?_⟩, ?_⟩
    · simp [Uncut, Nesting.cutsAt, hc]
    · rwa [hstep]
    · rwa [Nesting.scan_cons, hstep]

theorem unbroken_comma_of_blank (h : ∀ c ∈ text, isBlank c = true) :
    Unbroken ',' text := by
  apply unbroken_of_plain
  intro c hc
  constructor
  · rintro rfl
    exact absurd (h ',' hc) (by decide)
  · exact Nesting.isStructural_of_isBlank (h c hc)

/-- A text that is not cut is the first part in front of a separator. -/
theorem Unbroken.splitTopLevel_append_cons (h : Unbroken separator a)
    (hseparator : Nesting.isStructural separator = false) (b : Text) :
    splitTopLevel separator (a ++ separator :: b)
      = a :: splitTopLevel separator b := by
  have hcut : Nesting.top.cutsAt (· == separator) separator = true := by
    simp [Nesting.cutsAt, hseparator]
  have hsplit : splitFrom separator (Nesting.top.scan a) (separator :: b)
      = [] :: splitTopLevel separator b := by
    rw [h.2]
    exact splitFrom_cons_of_cutsAt b hcut
  rw [splitTopLevel, splitFrom_append h.1 hsplit, List.append_nil]

/-- The texts are what a scan leaves between its cuts: none is cut, and each
but the last ends at the top, where the next cut is made. -/
def AreParts (separator : Char) : Nesting → List Text → Prop
  | _, [] => False
  | state, [last] => Along (Uncut (· == separator)) state last
  | state, part :: next :: others =>
    Along (Uncut (· == separator)) state part ∧ state.scan part = .top
      ∧ AreParts separator .top (next :: others)

/-- Joined parts are cut apart again. -/
theorem splitFrom_intercalate
    (hseparator : Nesting.isStructural separator = false) {parts : List Text}
    (h : AreParts separator state parts) :
    splitFrom separator state ([separator].intercalate parts) = parts := by
  induction parts generalizing state with
  | nil => exact h.elim
  | cons part others ih =>
    cases others with
    | nil =>
      rw [List.intercalate_singleton]
      exact splitFrom_eq_singleton h
    | cons next others =>
      obtain ⟨huncut, hends, hothers⟩ := h
      have hcut : Nesting.top.cutsAt (· == separator) separator = true := by
        simp [Nesting.cutsAt, hseparator]
      have hsplit (rest : Text) :
          splitFrom separator (state.scan part) (separator :: rest)
            = [] :: splitFrom separator .top rest := by
        rw [hends]
        exact splitFrom_cons_of_cutsAt rest hcut
      rw [List.intercalate_cons_cons, List.append_assoc,
        List.singleton_append, splitFrom_append huncut (hsplit _),
        ih hothers, List.append_nil]

/-- Texts that are not cut are the parts of what they are joined to. -/
theorem areParts_of_unbroken {parts : List Text} (hne : parts ≠ [])
    (h : ∀ part ∈ parts, Unbroken separator part) :
    AreParts separator .top parts := by
  induction parts with
  | nil => exact absurd rfl hne
  | cons part others ih =>
    obtain ⟨hpart, hothers⟩ := List.forall_mem_cons.1 h
    cases others with
    | nil => exact hpart.1
    | cons next others =>
      exact ⟨hpart.1, hpart.2, ih (List.cons_ne_nil _ _) hothers⟩

/-- Joined texts of one part each are cut apart again. -/
theorem splitTopLevel_intercalate
    (hseparator : Nesting.isStructural separator = false) {parts : List Text}
    (hne : parts ≠ []) (h : ∀ part ∈ parts, Unbroken separator part) :
    splitTopLevel separator ([separator].intercalate parts) = parts :=
  splitFrom_intercalate hseparator (areParts_of_unbroken hne h)

-- =========================================== blanks around a text

/-- What holds along a text holds along it once it is trimmed. Blanks change no
state. -/
theorem along_trim {p : Nesting → Char → Prop} (h : Along p .top text) :
    Along p .top text.trim := by
  obtain ⟨lead, trail, hlead, -, heq⟩ := exists_eq_append_trim text
  rw [heq, Nesting.along_append, Nesting.scan_blanks hlead rfl,
    Nesting.along_append] at h
  exact h.2.1

theorem quoting_scan_trim (h : (Nesting.top.scan text).quoting = .outside) :
    (Nesting.top.scan text.trim).quoting = .outside := by
  obtain ⟨lead, trail, hlead, htrail, heq⟩ := exists_eq_append_trim text
  rw [heq, Nesting.scan_append, Nesting.scan_blanks hlead rfl,
    Nesting.scan_append] at h
  have hopened : (Nesting.top.scan text.trim).quoting.Opened := by
    rw [Nesting.quoting_scan]
    exact Quoting.opened_outside.scan _
  by_cases hin : (Nesting.top.scan text.trim).quoting = .outside
  · exact hin
  · exact absurd h (Nesting.quoting_scan_blanks hopened htrail hin)

theorem scan_trim (h : Nesting.top.scan text = .top) :
    Nesting.top.scan text.trim = .top := by
  have hout : (Nesting.top.scan text.trim).quoting = .outside :=
    quoting_scan_trim (by rw [h]; rfl)
  obtain ⟨lead, trail, hlead, htrail, heq⟩ := exists_eq_append_trim text
  rwa [heq, Nesting.scan_append, Nesting.scan_blanks hlead rfl,
    Nesting.scan_append, Nesting.scan_blanks htrail hout] at h

-- =============================================== breaking a text

section Break

variable {target : Char → Bool}

/-- A stretch without a cut stands before the break, wherever that is. -/
theorem breakFrom_append (h : Along (Uncut target) state a) :
    breakFrom target state (a ++ b)
      = (breakFrom target (state.scan a) b).map fun (before, hit, after) =>
          (a ++ before, hit, after) := by
  induction a generalizing state with
  | nil => simp
  | cons c rest ih =>
    rw [List.cons_append, breakFrom,
      if_neg (by rw [show state.cutsAt _ c = false from h.1]; simp),
      ih h.2, Option.map_map]
    rfl

/-- Where nothing is cut, nothing is broken off. -/
theorem breakFrom_eq_none (h : Along (Uncut target) state a) :
    breakFrom target state a = none := by
  have hbreak := breakFrom_append (b := []) h
  rwa [List.append_nil] at hbreak

/-- Where nothing is broken off there was no cut. -/
theorem along_of_breakFrom_eq_none (h : breakFrom target state a = none) :
    Along (Uncut target) state a := by
  induction a generalizing state with
  | nil => trivial
  | cons c rest ih =>
    rw [breakFrom] at h
    split at h
    · cases h
    · next hcut =>
      exact ⟨Bool.eq_false_iff.2 hcut, ih (Option.map_eq_none_iff.1 h)⟩

/-- In front of a break there is no cut, and the break is at the top. -/
theorem uncut_of_breakFrom {before after : Text} {hit : Char}
    (h : breakFrom target state text = some (before, hit, after)) :
    Along (Uncut target) state before ∧ state.scan before = .top := by
  induction text generalizing state before with
  | nil => cases h
  | cons c rest ih =>
    rw [breakFrom] at h
    split at h
    · next hcut =>
      cases h
      simp only [Nesting.cutsAt, Bool.and_eq_true, decide_eq_true_eq] at hcut
      exact ⟨trivial, hcut.1.1⟩
    · next hcut =>
      obtain ⟨⟨before', hit', after'⟩, hrest, heq⟩ :=
        Option.map_eq_some_iff.1 h
      cases heq
      obtain ⟨huncut, htop⟩ := ih hrest
      exact ⟨⟨Bool.eq_false_iff.2 hcut, huncut⟩, htop⟩

/-- The first cut is where it is made. -/
theorem breakFrom_append_cons (h : Along (Uncut target) state a) {c : Char}
    (hc : (state.scan a).cutsAt target c = true) :
    breakFrom target state (a ++ c :: b) = some (a, c, b) := by
  rw [breakFrom_append h, breakFrom, if_pos hc]
  simp

end Break

end Text

end StyleTree
