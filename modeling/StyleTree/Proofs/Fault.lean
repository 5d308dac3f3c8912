/-
First faults. What may fail is done part by part here, and the first part that
fails ends it: a list is read element by element, a bundle is built sheet by
sheet. So the fault of the whole is the first fault of its parts, which is what
`fault?` computes, and a whole without fault has a result for every part.
-/
import Mathlib.Data.List.Basic

namespace StyleTree

variable {α β γ ε ε' : Type}

/-- The fault that a computation ends with. -/
def fault? : Except ε α → Option ε
  | .ok _ => none
  | .error fault => some fault

/-- The fault of a result is the error it ends in. -/
theorem fault?_eq_some_iff {x : Except ε α} {fault : ε} :
    fault? x = some fault ↔ x = .error fault := by
  cases x <;> simp [fault?]

theorem fault?_map (f : α → β) (x : Except ε α) :
    fault? (x.map f) = fault? x := by
  cases x <;> rfl

theorem fault?_mapError (f : ε → ε') (x : Except ε α) :
    fault? (x.mapError f) = (fault? x).map f := by
  cases x <;> rfl

/-- What follows a part matters if the part has no fault. -/
theorem fault?_bind {x : Except ε α} {f : α → Except ε β} {later : Option ε}
    (h : ∀ value, fault? (f value) = later) :
    fault? (x >>= f) = (fault? x).or later := by
  cases x with
  | ok value => exact h value
  | error fault => rfl

/-- What follows a part does not matter if it has no fault. -/
theorem fault?_bind_of_none {x : Except ε α} {f : α → Except ε β}
    (h : ∀ value, fault? (f value) = none) : fault? (x >>= f) = fault? x := by
  rw [fault?_bind h, Option.or_none]

/-- The fault of a list is that of the first element with one. -/
theorem fault?_mapM (f : α → Except ε β) (list : List α) :
    fault? (list.mapM f) = list.findSome? fun a => fault? (f a) := by
  induction list with
  | nil => rfl
  | cons a rest ih =>
    have hrest : ∀ b, fault? (rest.mapM f >>= fun bs => pure (b :: bs))
        = rest.findSome? fun a => fault? (f a) := fun b => by
      rw [fault?_bind_of_none fun _ => rfl, ih]
    rw [List.mapM_cons, fault?_bind hrest, List.findSome?_cons]
    cases fault? (f a) <;> rfl

/-- Two steps succeed if the first one does and the second one does with its
value. -/
theorem bind_eq_ok_iff {x : Except ε α} {f : α → Except ε β} {result : β} :
    x >>= f = .ok result ↔ ∃ value, x = .ok value ∧ f value = .ok result := by
  cases x with
  | ok value =>
    constructor
    · exact fun h => ⟨value, rfl, h⟩
    · rintro ⟨_, heq, h⟩
      cases heq
      exact h
  | error fault =>
    constructor
    · exact fun h => nomatch h
    · exact fun ⟨_, h, _⟩ => nomatch h

theorem map_eq_ok_iff {x : Except ε α} {f : α → β} {result : β} :
    x.map f = .ok result ↔ ∃ value, x = .ok value ∧ f value = result := by
  cases x <;> simp [Except.map]

theorem mapError_eq_ok_iff {x : Except ε α} {f : ε → ε'} {result : α} :
    x.mapError f = .ok result ↔ x = .ok result := by
  cases x <;> simp [Except.mapError]

theorem map_ok_of_ok {x y : Except ε α} {f : α → β} {result : β}
    (h : ∀ value, x = .ok value → y = .ok value) (hx : x.map f = .ok result) :
    y.map f = .ok result := by
  obtain ⟨value, hvalue, heq⟩ := map_eq_ok_iff.1 hx
  exact map_eq_ok_iff.2 ⟨value, h value hvalue, heq⟩

/-- A list of steps succeeds if its first step does and the rest do. -/
theorem mapM_cons_eq_ok_iff {f : α → Except ε β} {a : α} {rest : List α}
    {results : List β} :
    (a :: rest).mapM f = .ok results
      ↔ ∃ b bs, f a = .ok b ∧ rest.mapM f = .ok bs ∧ b :: bs = results := by
  rw [List.mapM_cons, bind_eq_ok_iff]
  constructor
  · rintro ⟨b, hb, hrest⟩
    obtain ⟨bs, hbs, heq⟩ := bind_eq_ok_iff.1 hrest
    exact ⟨b, bs, hb, hbs, Except.ok.inj heq⟩
  · rintro ⟨b, bs, hb, hbs, rfl⟩
    exact ⟨b, hb, bind_eq_ok_iff.2 ⟨bs, hbs, rfl⟩⟩

/-- Where every part has the same result, so has the whole. -/
theorem mapM_ok_of_ok {f g : α → Except ε β}
    (h : ∀ a b, f a = .ok b → g a = .ok b) {list : List α} {results : List β}
    (hlist : list.mapM f = .ok results) : list.mapM g = .ok results := by
  induction list generalizing results with
  | nil => exact hlist
  | cons a rest ih =>
    obtain ⟨b, bs, hb, hbs, rfl⟩ := mapM_cons_eq_ok_iff.1 hlist
    exact mapM_cons_eq_ok_iff.2 ⟨b, bs, h a b hb, ih hbs, rfl⟩

/-- The results of a list stand in its order, under the names of its
elements. -/
theorem map_fst_of_mapM {name : α → γ} {f : α → Except ε β} {list : List α}
    {results : List (γ × β)}
    (hlist : (list.mapM fun a => (f a).map fun b => (name a, b))
      = .ok results) :
    results.map Prod.fst = list.map name := by
  induction list generalizing results with
  | nil =>
    cases hlist
    rfl
  | cons a rest ih =>
    obtain ⟨named, bs, hnamed, hbs, rfl⟩ := mapM_cons_eq_ok_iff.1 hlist
    obtain ⟨b, -, rfl⟩ := map_eq_ok_iff.1 hnamed
    rw [List.map_cons, List.map_cons, ih hbs]

end StyleTree
