/-
Comma lists, and what comes of multiplying them out. Selectors and conditions
are both written as comma lists, with blanks around the members as one likes
(`IsListOf`). Cut at its top level and trimmed, such a text gives its members
back (`IsListOf.split`), whatever commas there are inside of them, since a
member has none on its own top level.

# Products

Where one list is nested in another, each member of the outer takes each of the
inner one (`multiply`). A chain of such steps takes one member of each list in
all ways (`choices`), the first list varying slowest
(`foldl_multiply`). `IsListOf` and the like are kept along the chain if a
step keeps them (`foldl_of_step`).
-/
import StyleTree.Proofs.Text.Split
import StyleTree.Proofs.Text.Trim
import Mathlib.Algebra.BigOperators.Group.List.Basic
import Mathlib.Data.List.Forall2

namespace StyleTree

namespace Text

variable {a text part : Text} {members : List Text}

/-- The text is the members, joined by commas. Each may have blanks around it,
and none is cut. -/
def IsListOf (text : Text) (members : List Text) : Prop :=
  (∃ parts, parts ≠ [] ∧ text = [','].intercalate parts
      ∧ parts.map trim = members)
    ∧ ∀ member ∈ members, Unbroken ',' member

/-- Blanks around a text do not matter to where it is cut. -/
theorem unbroken_of_trim (h : Unbroken ',' part.trim) : Unbroken ',' part := by
  obtain ⟨lead, trail, hlead, htrail, heq⟩ := exists_eq_append_trim part
  rw [heq]
  exact Nesting.along_top_append (unbroken_comma_of_blank hlead)
    (Nesting.along_top_append h (unbroken_comma_of_blank htrail))

/-- The members of a list are what stands between its commas. -/
theorem IsListOf.split (h : IsListOf text members) :
    (text.splitTopLevel ',').map trim = members := by
  obtain ⟨⟨parts, hne, rfl, rfl⟩, hunbroken⟩ := h
  rw [splitTopLevel_intercalate (by decide) hne]
  intro part hpart
  exact unbroken_of_trim (hunbroken _ (List.mem_map_of_mem hpart))

theorem IsListOf.ne_nil (h : IsListOf text members) : members ≠ [] := by
  obtain ⟨⟨parts, hne, -, rfl⟩, -⟩ := h
  simpa using hne

/-- The parts of a list are its members, if none is empty. -/
theorem IsListOf.commaParts (h : IsListOf text members)
    (hne : ∀ member ∈ members, member ≠ []) : text.commaParts = members := by
  unfold Text.commaParts
  rw [h.split, List.filter_eq_self]
  intro member hmember
  simpa using hne member hmember

/-- A list of members that are something is something. -/
theorem IsListOf.text_ne_nil (h : IsListOf text members)
    (hne : ∀ member ∈ members, member ≠ []) : text ≠ [] := by
  rintro rfl
  have hblank : members = [[]] := h.split.symm
  exact hne [] (hblank ▸ List.mem_singleton_self _) rfl

/-- A blank in front is trimmed away. -/
theorem trim_cons_blank {c : Char} (hc : isBlank c = true) (text : Text) :
    trim (c :: text) = trim text := by
  unfold trim
  rw [trimStart_cons, if_pos hc]

/-- The blank of a separator may as well belong to the part behind it. -/
theorem intercalate_comma_blank (first : Text) (others : List Text) :
    ", ".toList.intercalate (first :: others)
      = [','].intercalate (first :: others.map (' ' :: ·)) := by
  induction others generalizing first with
  | nil => rfl
  | cons next others ih =>
    have hcut (rest : Text) : first ++ ", ".toList ++ rest
        = first ++ [','] ++ ' ' :: rest := by simp
    have hblank : ' ' :: [','].intercalate (next :: others.map (' ' :: ·))
        = [','].intercalate ((' ' :: next) :: others.map (' ' :: ·)) := by
      cases others <;> rfl
    rw [List.intercalate_cons_cons, ih, hcut, hblank, List.map_cons,
      List.intercalate_cons_cons]

/-- Members that are joined are listed. -/
theorem isListOf_intercalate (hne : members ≠ [])
    (h : ∀ member ∈ members, Trimmed member ∧ Unbroken ',' member) :
    IsListOf (", ".toList.intercalate members) members := by
  refine ⟨?_, fun member hmember => (h member hmember).2⟩
  obtain ⟨first, others, rfl⟩ := List.exists_cons_of_ne_nil hne
  refine ⟨first :: others.map (' ' :: ·), List.cons_ne_nil _ _,
    intercalate_comma_blank first others, ?_⟩
  have hself : ∀ member ∈ first :: others, trim member = member :=
    fun member hmember => trim_eq_self_iff.2 (h member hmember).1
  obtain ⟨hfirst, hothers⟩ := List.forall_mem_cons.1 hself
  have hmap : (others.map (' ' :: ·)).map trim = others := by
    rw [List.map_map]
    refine (List.map_congr_left fun member hmember => ?_).trans (List.map_id _)
    show trim (' ' :: member) = member
    rw [trim_cons_blank (by decide), hothers member hmember]
  rw [List.map_cons, hfirst, hmap]

end Text

-- ========================================================== products

section Products

variable {α β γ T U : Type}

/-- Each of the first with each of the second, the first varying slowest. -/
def multiply (f : β → α → γ) (outer : List β) (inner : List α) : List γ :=
  outer.flatMap fun b => inner.map (f b)

theorem mem_multiply {f : β → α → γ} {bs : List β} {as : List α} {c : γ} :
    c ∈ multiply f bs as ↔ ∃ b ∈ bs, ∃ a ∈ as, f b a = c := by
  simp only [multiply, List.mem_flatMap, List.mem_map]

theorem multiply_ne_nil (f : β → α → γ) {bs : List β} {as : List α}
    (hbs : bs ≠ []) (has : as ≠ []) : multiply f bs as ≠ [] := by
  obtain ⟨b, bs, rfl⟩ := List.exists_cons_of_ne_nil hbs
  obtain ⟨a, as, rfl⟩ := List.exists_cons_of_ne_nil has
  exact List.cons_ne_nil _ _

/-- What holds of every two holds throughout their product. -/
theorem forall_mem_multiply {f : β → α → γ} {bs : List β} {as : List α}
    {p : γ → Prop} :
    (∀ c ∈ multiply f bs as, p c) ↔ ∀ b ∈ bs, ∀ a ∈ as, p (f b a) := by
  constructor
  · exact fun h b hb a ha => h _ (mem_multiply.2 ⟨b, hb, a, ha, rfl⟩)
  · intro h c hc
    obtain ⟨b, hb, a, ha, rfl⟩ := mem_multiply.1 hc
    exact h b hb a ha

/-- The last one is made of the last of the first and of the second. -/
theorem getLast?_multiply (f : β → α → γ) (bs : List β) (as : List α) :
    (multiply f bs as).getLast?
      = bs.getLast?.bind fun b => as.getLast?.map (f b) := by
  rcases List.eq_nil_or_concat as with rfl | ⟨as, a, rfl⟩
  · have hnil : multiply f bs [] = [] :=
      List.flatMap_eq_nil_iff.2 fun _ _ => rfl
    simp [hnil]
  · rcases List.eq_nil_or_concat bs with rfl | ⟨bs, b, rfl⟩
    · rfl
    · simp [multiply]

/-- A product of images is a product. -/
theorem multiply_map {α' β' : Type} (f : β → α → γ) (g : β' → β) (h : α' → α)
    (bs : List β') (as : List α') : multiply f (bs.map g) (as.map h)
      = multiply (fun b a => f (g b) (h a)) bs as := by
  simp only [multiply, List.flatMap_map, List.map_map]
  rfl

theorem map_multiply {δ : Type} (g : γ → δ) (f : β → α → γ) (bs : List β)
    (as : List α) :
    (multiply f bs as).map g = multiply (fun b a => g (f b a)) bs as := by
  simp only [multiply, List.map_flatMap, List.map_map]
  rfl

theorem multiply_congr {f g : β → α → γ} {bs : List β} {as : List α}
    (h : ∀ b ∈ bs, ∀ a ∈ as, f b a = g b a) :
    multiply f bs as = multiply g bs as := by
  unfold multiply
  rw [List.flatMap_def, List.flatMap_def]
  congr 1
  exact List.map_congr_left fun b hb => List.map_congr_left (h b hb)

/-- One of each list, in all ways. They are in lexicographic order, the first
list varying slowest. -/
def choices : List (List α) → List (List α)
  | [] => [[]]
  | options :: rest => options.flatMap fun a => (choices rest).map (a :: ·)

/-- To multiply by one list after the other is to go through the choices. -/
theorem foldl_multiply (f : β → α → β) (start : List β)
    (lists : List (List α)) :
    lists.foldl (multiply f) start
      = start.flatMap fun b => (choices lists).map fun as => as.foldl f b := by
  induction lists generalizing start with
  | nil => simp [choices]
  | cons options rest ih =>
    rw [List.foldl_cons, ih, multiply, List.flatMap_assoc]
    congr 1
    funext b
    rw [choices, List.flatMap_map, List.map_flatMap]
    congr 1
    funext a
    rw [List.map_map]
    rfl

/-- There are as many choices as the lengths of the lists multiplied. -/
theorem length_choices (lists : List (List α)) :
    (choices lists).length = (lists.map List.length).prod := by
  induction lists with
  | nil => rfl
  | cons options rest ih =>
    simp [choices, ih, List.map_const', List.sum_replicate]

/-- A choice takes one of the first list and a choice of the others. -/
theorem mem_choices_cons {options : List α} {lists : List (List α)}
    {as : List α} : as ∈ choices (options :: lists)
      ↔ ∃ a ∈ options, ∃ rest ∈ choices lists, as = a :: rest := by
  simp only [choices, List.mem_flatMap, List.mem_map, eq_comm]

/-- What texts stand for is multiplied out along a chain of them, if each step
of the chain multiplies it. -/
theorem foldl_of_step {R : T → List β → Prop} {S : U → List α → Prop}
    {g : T → U → T} {f : β → α → β}
    (hstep : ∀ {t bs u as}, R t bs → S u as → R (g t u) (multiply f bs as))
    {t : T} {bs : List β} (ht : R t bs) {us : List U} {lists : List (List α)}
    (hus : List.Forall₂ S us lists) :
    R (us.foldl g t)
      (bs.flatMap fun b => (choices lists).map fun as => as.foldl f b) := by
  rw [← foldl_multiply]
  induction hus generalizing t bs with
  | nil => exact ht
  | cons hu _ ih => exact ih (hstep ht hu)

end Products

end StyleTree
