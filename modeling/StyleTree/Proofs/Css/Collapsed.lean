/-
What collapsing does to one closed text, and that the text around it does not
matter. A printed stylesheet puts its texts behind marks, and behind a mark
spaces are dropped just as they are at the start of a text. So a closed text in
the middle is written as it would be alone (`run_braceless`), and the whole can
be computed piece by piece.

The result is settled again (`settled_collapse`): dropping or shortening blanks
outside of literals does not touch what a scan looks at, so the scan of what
was written keeps up with the scan of what was read (`Faithful`).
-/
import StyleTree.Css.Collapse
import StyleTree.Proofs.Css.RoundTrip

namespace StyleTree.Css

open Nesting (Along Braceless Admits)

namespace Collapsing

variable {s t : Collapsing} {c : Char} {a b text base : Text}

-- ================================================== single steps

/-- The state after a whole text. -/
def run (state : Collapsing) (text : Text) : Collapsing :=
  text.foldl step state

@[simp] theorem run_nil (s : Collapsing) : s.run [] = s := rfl

@[simp] theorem run_cons (s : Collapsing) (c : Char) (rest : Text) :
    s.run (c :: rest) = (s.step c).run rest := rfl

/-- A run may be cut anywhere. -/
theorem run_append (s : Collapsing) (a b : Text) :
    s.run (a ++ b) = (s.run a).run b := List.foldl_append

/-- Inside of a literal every character is written. -/
theorem step_inside (h : s.quoting ≠ .outside) :
    s.step c = ⟨c :: s.written, s.quoting.step c, s.gap⟩ := by
  unfold step
  split
  · rfl
  · next hout => exact absurd hout h

/-- A blank is only remembered. -/
theorem step_blank (h : s.quoting = .outside) (hc : isBlank c = true) :
    s.step c = ⟨s.written, .outside, true⟩ := by
  obtain ⟨written, quoting, gap⟩ := s
  subst h
  simp [step, hc]

/-- Any other character is written, behind a space if one is due. -/
theorem step_plain (h : s.quoting = .outside) (hc : isBlank c = false)
    (hbrace : c ≠ '}') :
    s.step c =
      ⟨c :: (if s.gap && needsSpace s.written c then ' ' :: s.written
          else s.written), s.quoting.step c, false⟩ := by
  obtain ⟨written, quoting, gap⟩ := s
  subst h
  simp [step, hc, hbrace]

/-- A closing brace takes the place of the semicolon before it. -/
theorem step_closing (h : s.quoting = .outside) :
    s.step '}' = ⟨'}' :: dropSemicolon s.written, .outside, false⟩ := by
  obtain ⟨written, quoting, gap⟩ := s
  subst h
  have hspace : needsSpace written '}' = false := by
    cases written with
    | nil => rfl
    | cons last written => simp [needsSpace, isTightBefore]
  have hblank : isBlank '}' = false := by decide
  have hquote : Quoting.step .outside '}' = .outside := by decide
  simp [step, hblank, hspace, hquote]

/-- A step writes its character, perhaps behind a space, or it drops a blank
outside of literals. -/
theorem step_cases (s : Collapsing) (c : Char)
    (hbrace : s.quoting = .outside → c ≠ '}') :
    (s.quoting = .outside ∧ isBlank c = true
        ∧ s.step c = ⟨s.written, .outside, true⟩)
      ∨ ((s.quoting = .outside → isBlank c = false)
        ∧ ∃ between gap,
          (between = [] ∨ between = [' '] ∧ s.quoting = .outside)
            ∧ s.step c
              = ⟨c :: (between ++ s.written), s.quoting.step c, gap⟩) := by
  by_cases hout : s.quoting = .outside
  · cases hblank : isBlank c with
    | true => exact .inl ⟨hout, rfl, step_blank hout hblank⟩
    | false =>
      refine .inr ⟨fun _ => rfl, ?_⟩
      rw [step_plain hout hblank (hbrace hout)]
      split
      · exact ⟨[' '], false, .inr ⟨rfl, hout⟩, rfl⟩
      · exact ⟨[], false, .inl rfl, rfl⟩
  · exact .inr ⟨fun h => absurd h hout, [], s.gap, .inl rfl,
      step_inside hout⟩

/-- Collapsing knows of literals what a scan does. -/
theorem quoting_step (s : Collapsing) (c : Char) :
    (s.step c).quoting = s.quoting.step c := by
  by_cases hout : s.quoting = .outside
  · cases hblank : isBlank c with
    | true =>
      have hc := Nesting.isStructural_of_isBlank hblank
      simp only [Nesting.isStructural, Bool.or_eq_false_iff] at hc
      rw [step_blank hout hblank, hout,
        Quoting.step_outside_of_not_isQuote hc.1.1]
    | false =>
      by_cases hbrace : c = '}'
      · subst hbrace
        rw [step_closing hout, hout]
        rfl
      · rw [step_plain hout hblank hbrace]
  · rw [step_inside hout]

/-- Collapsing keeps count of literals as every scan does. -/
theorem quoting_run (s : Collapsing) (text : Text) :
    (s.run text).quoting = s.quoting.scan text := by
  induction text generalizing s with
  | nil => rfl
  | cons c rest ih =>
    rw [run_cons, ih, quoting_step]
    rfl

-- ======================================================= behind marks

/-- What was written ends in a place where no space follows. -/
def Tight (written : Text) : Prop :=
  ∀ c ∈ written.head?, isTightAfter c = true

theorem tight_nil : Tight [] := fun _ h => nomatch h

/-- Behind a mark no space is due. -/
theorem Tight.needsSpace (h : Tight base) (c : Char) :
    needsSpace base c = false := by
  cases base with
  | nil => rfl
  | cons last base =>
    have hlast := h last rfl
    simp [Collapsing.needsSpace, hlast]

/-- Two states that agree in everything but what was written before. They need
not agree about blanks where nothing was written since. -/
structure Over (base : Text) (s t : Collapsing) : Prop where
  written : t.written = s.written ++ base
  quoting : t.quoting = s.quoting
  gap : s.written ≠ [] → t.gap = s.gap
  inside : s.quoting ≠ .outside → s.written ≠ []

/-- Whether a space is due is seen from the last character alone. -/
theorem needsSpace_append {written : Text} (hne : written ≠ []) (c : Char) :
    needsSpace (written ++ base) c = needsSpace written c := by
  obtain ⟨last, written, rfl⟩ := List.exists_cons_of_ne_nil hne
  rfl

/-- The two states step alike. A closing brace is left out, which could take
away a semicolon from below. -/
theorem Over.step (h : Over base s t) (hbase : Tight base)
    (hc : s.quoting = .outside → c ≠ '}') :
    Over base (s.step c) (t.step c) := by
  by_cases hout : s.quoting = .outside
  · have hout' : t.quoting = .outside := h.quoting.trans hout
    cases hblank : isBlank c with
    | true =>
      rw [step_blank hout hblank, step_blank hout' hblank]
      exact ⟨h.written, rfl, fun _ => rfl, fun hin => absurd rfl hin⟩
    | false =>
      rw [step_plain hout hblank (hc hout), step_plain hout' hblank (hc hout)]
      refine ⟨?_, congrArg (Quoting.step · c) h.quoting, fun _ => rfl,
        fun _ => List.cons_ne_nil _ _⟩
      by_cases hnil : s.written = []
      · rw [h.written, hnil, List.nil_append, hbase.needsSpace,
          tight_nil.needsSpace]
        simp
      · rw [h.written, h.gap hnil, needsSpace_append hnil]
        split <;> rfl
  · have hin : t.quoting ≠ .outside := fun ht => hout (h.quoting ▸ ht)
    rw [step_inside hout, step_inside hin]
    exact ⟨congrArg (c :: ·) h.written, congrArg (Quoting.step · c) h.quoting,
      fun _ => h.gap (h.inside hout), fun _ => List.cons_ne_nil _ _⟩

/-- So they run alike on a text without braces. -/
theorem Over.run {state : Nesting} (h : Over base s t) (hbase : Tight base)
    (hstate : s.quoting = state.quoting) (htext : Along Braceless state text) :
    Over base (s.run text) (t.run text) := by
  induction text generalizing s t state with
  | nil => exact h
  | cons c rest ih =>
    refine ih (h.step hbase fun hout => ?_) ?_ htext.2
    · exact (htext.1 (hstate ▸ hout)).2
    · rw [quoting_step, hstate]
      rfl

/-- Any state outside of literals is the start over what it has written. -/
theorem over_start (base : Text) (gap : Bool) :
    Over base start ⟨base, .outside, gap⟩ :=
  ⟨rfl, rfl, fun h => absurd rfl h, fun h => absurd rfl h⟩

/-- Behind a mark, a text without braces is written as it would be alone. -/
theorem run_braceless (hbase : Tight base) (gap : Bool)
    (htext : Along Braceless .top text)
    (hout : (Nesting.top.scan text).quoting = .outside) :
    ∃ gap', run ⟨base, .outside, gap⟩ text
      = ⟨(collapse text).reverse ++ base, .outside, gap'⟩ := by
  have h := (over_start base gap).run hbase rfl htext
  have hquoting : (start.run text).quoting = .outside := by
    rw [quoting_run]
    rwa [Nesting.quoting_scan] at hout
  have hwritten : (start.run text).written = (collapse text).reverse :=
    (List.reverse_reverse _).symm
  generalize run ⟨base, .outside, gap⟩ text = t at h
  obtain ⟨written, quoting, gap'⟩ := t
  refine ⟨gap', ?_⟩
  rw [← hwritten, ← show written = _ from h.written,
    show quoting = .outside from h.quoting.trans hquoting]

-- ============================================== the first character

/-- What has been written stays, where there is no brace to take it away. -/
theorem exists_written_run {state : Nesting} (s : Collapsing)
    (hstate : s.quoting = state.quoting) (htext : Along Braceless state text) :
    ∃ more, (s.run text).written = more ++ s.written := by
  induction text generalizing s state with
  | nil => exact ⟨[], rfl⟩
  | cons c rest ih =>
    have hnext : (s.step c).quoting = (state.step c).quoting := by
      rw [quoting_step, hstate]
      rfl
    obtain ⟨more, hmore⟩ := ih (s.step c) hnext htext.2
    rcases step_cases s c fun hout => (htext.1 (hstate ▸ hout)).2 with
      ⟨-, -, heq⟩ | ⟨-, between, gap, -, heq⟩
    · exact ⟨more, by rw [run_cons, hmore, heq]⟩
    · exact ⟨more ++ c :: between, by rw [run_cons, hmore, heq]; simp⟩

end Collapsing

section Text

open Collapsing

variable {c : Char} {rest text : Text}

/-- Leading blanks leave nothing behind. -/
theorem collapse_cons_blank (hc : isBlank c = true)
    (htext : Along Braceless .top rest)
    (hout : (Nesting.top.scan rest).quoting = .outside) :
    collapse (c :: rest) = collapse rest := by
  obtain ⟨gap, hrun⟩ := run_braceless tight_nil true htext hout
  show (Collapsing.run (start.step c) rest).written.reverse = _
  rw [step_blank rfl hc]
  show (Collapsing.run ⟨[], .outside, true⟩ rest).written.reverse = _
  rw [hrun]
  simp

/-- The first character that is written is the first one that is not blank. -/
theorem head?_collapse (htext : Along Braceless .top text)
    (hout : (Nesting.top.scan text).quoting = .outside) :
    (collapse text).head? = text.trimStart.head? := by
  induction text with
  | nil => rfl
  | cons c rest ih =>
    rw [Text.trimStart_cons]
    cases hc : isBlank c with
    | true =>
      have hstep : Nesting.top.step c = .top :=
        Nesting.step_top (Nesting.isStructural_of_isBlank hc)
      have hrest := htext.2
      rw [hstep] at hrest
      rw [Nesting.scan_cons, hstep] at hout
      rw [collapse_cons_blank hc hrest hout, ih hrest hout, if_pos rfl]
    | false =>
      have hnext : (start.step c).quoting = (Nesting.top.step c).quoting :=
        quoting_step start c
      obtain ⟨more, hmore⟩ := exists_written_run _ hnext htext.2
      rw [step_plain rfl hc (htext.1 rfl).2] at hmore
      show (Collapsing.run (start.step c) rest).written.reverse.head? = _
      rw [step_plain rfl hc (htext.1 rfl).2, hmore]
      simp [start]

end Text

-- ==================================================== settled again

namespace Collapsing

variable {state : Nesting} {s : Collapsing} {c : Char} {text : Text}

/-- No blank ends a literal. -/
theorem isBlank_of_step_eq_outside {quoting : Quoting}
    (hopened : quoting.Opened) (hin : quoting ≠ .outside)
    (hstep : quoting.step c = .outside) : isBlank c = false := by
  cases hblank : isBlank c with
  | false => rfl
  | true =>
    have hstay : (Nesting.scan ⟨quoting, 0⟩ [c]).quoting ≠ .outside :=
      Nesting.quoting_scan_blanks hopened (by simpa using hblank) hin
    exact absurd hstep hstay

/-- What was written is scanned like what was read, and outside of literals no
blank was written last. -/
structure Faithful (state : Nesting) (s : Collapsing) : Prop where
  along : Along Admits .top s.written.reverse
  scan : Nesting.top.scan s.written.reverse = state
  quoting : s.quoting = state.quoting
  last : s.quoting = .outside → ∀ c ∈ s.written.head?, isBlank c = false

/-- At the start nothing was read and nothing was written. -/
theorem faithful_start : Faithful .top start :=
  ⟨trivial, rfl, rfl, fun _ _ h => nomatch h⟩

/-- A step keeps faith. The character that it writes is admitted where it was
read, and a space that it writes changes no state. -/
theorem Faithful.step (h : Faithful state s) (hopened : state.quoting.Opened)
    (hc : Admits state c) : Faithful (state.step c) (s.step c) := by
  have hquoting : (s.step c).quoting = (state.step c).quoting := by
    rw [quoting_step, h.quoting]
    rfl
  rcases step_cases s c fun hout => (hc (h.quoting ▸ hout)).2.1 with
    ⟨hout, hblank, heq⟩ | ⟨hplain, between, gap, hbetween, heq⟩
  · have hstay : state.step c = state :=
      Nesting.step_of_not_isStructural (Nesting.isStructural_of_isBlank hblank)
        (h.quoting ▸ hout)
    rw [heq, hstay]
    exact ⟨h.along, h.scan, hout.symm.trans h.quoting, fun _ => h.last hout⟩
  · rw [heq] at hquoting ⊢
    -- what goes in front of the character is a space or nothing
    have hspace : Along Admits state between.reverse
        ∧ state.scan between.reverse = state := by
      rcases hbetween with rfl | ⟨rfl, hout⟩
      · exact ⟨trivial, rfl⟩
      · have hstay : state.step ' ' = state :=
          Nesting.step_of_not_isStructural (by decide) (h.quoting ▸ hout)
        exact ⟨⟨Nesting.admits_of_plain state (by decide) (by decide)
          (by decide), trivial⟩, hstay⟩
    have hreverse : (c :: (between ++ s.written)).reverse
        = s.written.reverse ++ (between.reverse ++ [c]) := by simp
    refine ⟨?_, ?_, hquoting, fun hout d hd => ?_⟩
    · rw [hreverse, Nesting.along_append, Nesting.along_append, h.scan,
        hspace.2]
      exact ⟨h.along, hspace.1, hc, trivial⟩
    · rw [hreverse, Nesting.scan_append, Nesting.scan_append, h.scan, hspace.2]
      rfl
    · cases hd
      by_cases hs : s.quoting = .outside
      · exact hplain hs
      · exact isBlank_of_step_eq_outside (h.quoting ▸ hopened) hs hout

/-- So does a run on a text of which every character is admitted. -/
theorem Faithful.run (h : Faithful state s) (hopened : state.quoting.Opened)
    (htext : Along Admits state text) :
    Faithful (state.scan text) (s.run text) := by
  induction text generalizing state s with
  | nil => exact h
  | cons c rest ih =>
    exact ih (h.step hopened htext.1) (hopened.step c) htext.2

end Collapsing

variable {text : Text}

/-- Collapsing a closed text leaves it closed, and trims it. -/
theorem settled_collapse (h : text.Closed) : (collapse text).Settled := by
  have hfaithful :=
    Collapsing.faithful_start.run Quoting.opened_outside h.1
  rw [h.2] at hfaithful
  refine ⟨⟨hfaithful.along, hfaithful.scan⟩, ?_, ?_⟩
  · rw [head?_collapse h.braceless h.quoting_scan]
    exact Text.isBlank_head?_trimStart
  · show ∀ c ∈ (Collapsing.run .start text).written.reverse.getLast?, _
    rw [List.getLast?_reverse]
    exact hfaithful.last hfaithful.quoting

end StyleTree.Css
