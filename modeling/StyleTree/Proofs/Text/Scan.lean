/-
What the scans of a text have in common. A condition on a text that is read
from the left is mostly a condition on each character in the state in which it
is read: that no bracket is closed which is not open, that no cut is made, that
no brace stands outside of a literal. `Nesting.Along` is that shape, and its
append law cuts a text into pieces that are scanned on their own.

# Raised states

A piece that was scanned alone is scanned again as a part of a longer text,
perhaps inside of brackets. If it closes no bracket that it has not opened
itself (`Nesting.Matched`), the second scan is the first one raised by the
depth around it (`scan_raise`), and whatever a raised state cannot spoil still
holds (`Along.raise`).
-/
import StyleTree.Text.Nesting

namespace StyleTree

-- ==================================================== literals

namespace Quoting

/-- Outside of literals a quote opens one. -/
theorem step_outside (c : Char) :
    outside.step c
      = if isQuote c = true then inside c false else outside := rfl

/-- Inside of a literal a backslash escapes the next character, and only the
quote that opened the literal closes it. -/
theorem step_inside (quote c : Char) :
    (inside quote false).step c
      = if c = '\\' then inside quote true
        else if c = quote then outside else inside quote false := rfl

/-- A literal, if the state is inside of one, was opened by a quote. -/
def Opened (quoting : Quoting) : Prop :=
  ∀ quote escaped, quoting = inside quote escaped → isQuote quote = true

theorem opened_outside : Opened outside := fun _ _ h => nomatch h

/-- A literal that is open was opened by a quote, after every step. -/
theorem Opened.step {quoting : Quoting} (h : quoting.Opened) (c : Char) :
    (quoting.step c).Opened := by
  intro quote escaped hinside
  cases quoting with
  | outside =>
    rw [step_outside] at hinside
    by_cases hquote : isQuote c = true
    · rw [if_pos hquote] at hinside
      injection hinside with hc
      exact hc ▸ hquote
    · rw [if_neg hquote] at hinside
      cases hinside
  | inside opening after =>
    have hopening := h opening after rfl
    cases after with
    | true =>
      injection hinside with hc
      exact hc ▸ hopening
    | false =>
      rw [step_inside] at hinside
      split at hinside
      · injection hinside with hc
        exact hc ▸ hopening
      · split at hinside
        · cases hinside
        · injection hinside with hc
          exact hc ▸ hopening

/-- And so it was after a whole text. -/
theorem Opened.scan {quoting : Quoting} (h : quoting.Opened) (text : Text) :
    (quoting.scan text).Opened := by
  induction text generalizing quoting with
  | nil => exact h
  | cons c rest ih => exact ih (h.step c)

end Quoting

namespace Nesting

-- ================================================ along a scan

/-- Every character of a text is as `p` wants it, in the state in which it is
read. -/
def Along (p : Nesting → Char → Prop) : Nesting → Text → Prop
  | _, [] => True
  | state, c :: rest => p state c ∧ Along p (state.step c) rest

variable {p q : Nesting → Char → Prop} {state : Nesting} {a b text : Text}

instance decidableAlong (p : Nesting → Char → Prop)
    [h : ∀ state c, Decidable (p state c)] :
    ∀ (state : Nesting) (text : Text), Decidable (Along p state text)
  | _, [] => isTrue trivial
  | state, c :: rest =>
    @instDecidableAnd _ _ (h state c) (decidableAlong p (state.step c) rest)

@[simp] theorem along_nil : Along p state [] := trivial

theorem along_cons {c : Char} {rest : Text} :
    Along p state (c :: rest) ↔ p state c ∧ Along p (state.step c) rest :=
  Iff.rfl

theorem along_append :
    Along p state (a ++ b) ↔ Along p state a ∧ Along p (state.scan a) b := by
  induction a generalizing state with
  | nil => simp
  | cons c rest ih =>
    rw [List.cons_append, along_cons, along_cons, ih, scan_cons, and_assoc]

theorem Along.mono (h : Along p state text)
    (himp : ∀ state c, p state c → q state c) : Along q state text := by
  induction text generalizing state with
  | nil => trivial
  | cons c rest ih => exact ⟨himp _ _ h.1, ih h.2⟩

theorem Along.and (hp : Along p state text) (hq : Along q state text) :
    Along (fun state c => p state c ∧ q state c) state text := by
  induction text generalizing state with
  | nil => trivial
  | cons c rest ih => exact ⟨⟨hp.1, hq.1⟩, ih hp.2 hq.2⟩

/-- Texts that are read from the top, and end there, may stand side by side. -/
theorem along_top_append (ha : Along p top a ∧ top.scan a = top)
    (hb : Along p top b ∧ top.scan b = top) :
    Along p top (a ++ b) ∧ top.scan (a ++ b) = top := by
  rw [along_append, scan_append, ha.2]
  exact ⟨⟨ha.1, hb.1⟩, hb.2⟩

/-- Texts that end at the top level may be joined by one that does too. -/
theorem along_top_intercalate {parts : List Text}
    (ha : Along p top a ∧ top.scan a = top)
    (h : ∀ part ∈ parts, Along p top part ∧ top.scan part = top) :
    Along p top (a.intercalate parts)
      ∧ top.scan (a.intercalate parts) = top := by
  induction parts with
  | nil => exact ⟨trivial, rfl⟩
  | cons part rest ih =>
    obtain ⟨hpart, hrest⟩ := List.forall_mem_cons.1 h
    cases rest with
    | nil => rwa [List.intercalate_singleton]
    | cons next rest =>
      rw [List.intercalate_cons_cons]
      exact along_top_append (along_top_append hpart ha) (ih hrest)

-- ============================================== blanks in a scan

/-- A blank is no quote and no bracket. -/
theorem isStructural_of_isBlank {c : Char} (h : isBlank c = true) :
    isStructural c = false := by
  cases hc : isStructural c with
  | false => rfl
  | true =>
    simp only [isStructural, isQuote, isOpening, isClosing, Bool.or_eq_true,
      beq_iff_eq] at hc
    rcases hc with ((rfl | rfl) | (rfl | rfl)) | (rfl | rfl) <;>
      exact absurd h (by decide)

/-- Outside of literals, a character that is no quote and no bracket leaves
the state as it is. -/
theorem step_of_not_isStructural {c : Char} (hc : isStructural c = false)
    (hout : state.quoting = .outside) : state.step c = state := by
  simp only [isStructural, Bool.or_eq_false_iff] at hc
  obtain ⟨quoting, depth⟩ := state
  subst hout
  simp [step, bracketDepth, Quoting.step, hc]

/-- Outside of literals, blanks leave the state as it is. -/
theorem scan_blanks (hblank : ∀ c ∈ text, isBlank c = true)
    (hout : state.quoting = .outside) : state.scan text = state := by
  induction text with
  | nil => rfl
  | cons c rest ih =>
    have hc := isStructural_of_isBlank (hblank c (List.mem_cons_self ..))
    rw [scan_cons, step_of_not_isStructural hc hout]
    exact ih fun d hd => hblank d (List.mem_cons_of_mem _ hd)

/-- A literal does not end at a blank. -/
theorem quoting_scan_blanks (hopened : state.quoting.Opened)
    (hblank : ∀ c ∈ text, isBlank c = true)
    (hin : state.quoting ≠ .outside) :
    (state.scan text).quoting ≠ .outside := by
  induction text generalizing state with
  | nil => exact hin
  | cons c rest ih =>
    have hc := hblank c (List.mem_cons_self ..)
    refine ih (hopened.step c)
      (fun d hd => hblank d (List.mem_cons_of_mem _ hd)) ?_
    show state.quoting.step c ≠ .outside
    cases hquoting : state.quoting with
    | outside => exact absurd hquoting hin
    | inside quote escaped =>
      -- the literal was opened by a quote, which a blank is not
      have hne : c ≠ quote := by
        rintro rfl
        have hquote := hopened c escaped hquoting
        have hplain := isStructural_of_isBlank hc
        simp [isStructural, hquote] at hplain
      intro hstep
      cases escaped with
      | true => cases hstep
      | false =>
        rw [Quoting.step_inside, if_neg hne] at hstep
        split at hstep <;> cases hstep

-- ================================================ raised states

/-- The same place with more brackets open around it. -/
def raise (k : Nat) (state : Nesting) : Nesting :=
  { state with depth := state.depth + k }

/-- No bracket is closed that is not open. -/
def Matched (state : Nesting) (c : Char) : Prop :=
  state.quoting = .outside → isClosing c = true → state.depth ≠ 0

instance (state : Nesting) (c : Char) : Decidable (Matched state c) :=
  inferInstanceAs (Decidable (_ → _ → _))

/-- A step that closes no more than it opened does the same deeper inside. -/
theorem step_raise {c : Char} (k : Nat) (h : Matched state c) :
    (state.raise k).step c = (state.step c).raise k := by
  unfold raise step bracketDepth
  by_cases hout : state.quoting = .outside
  · by_cases hopen : isOpening c = true
    · simp only [hout, hopen, if_true]
      congr 1
      omega
    · by_cases hclose : isClosing c = true
      · have hdepth := h hout hclose
        simp only [hout, hopen, hclose, if_true]
        congr 1
        simp
        omega
      · simp [hout, hopen, hclose]
  · simp [hout]

/-- A text that closes only its own brackets is scanned inside of others as it
is scanned alone. -/
theorem scan_raise (k : Nat) (h : Along Matched state text) :
    (state.raise k).scan text = (state.scan text).raise k := by
  induction text generalizing state with
  | nil => rfl
  | cons c rest ih =>
    rw [scan_cons, scan_cons, step_raise k h.1]
    exact ih h.2

/-- What holds along such a text holds deeper inside if every step allows
it. -/
theorem Along.raise (k : Nat) (hm : Along Matched state text)
    (hp : Along p state text)
    (hup : ∀ state c, p state c → q (state.raise k) c) :
    Along q (state.raise k) text := by
  induction text generalizing state with
  | nil => trivial
  | cons c rest ih =>
    refine ⟨hup _ _ hp.1, ?_⟩
    rw [step_raise k hm.1]
    exact ih hm.2 hp.2

end Nesting

end StyleTree
