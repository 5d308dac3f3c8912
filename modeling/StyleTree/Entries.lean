/-
Entries: a map that remembers in which order its keys came. Writing to a key
that is there replaces its value where it stands; a new key goes to the end;
what is removed and written again goes to the end again. Style objects, sheets
and custom properties are all such maps, and the order is what their output
follows.

The carrier is the plain list of pairs, so that trees of entries nest without
an invariant in the type; that keys are distinct is the predicate `Distinct`
beside it. Every operation keeps it, and `ofList` builds it from any list. The
view of a map is `keys` for the order and `get?` for the values, with one
equation per operation.
-/
import StyleTree.Text.Basic

namespace StyleTree

/-- Pairs of a key and a value, in the order in which the keys were first
written. -/
abbrev Entries (α : Type) := List (Text × α)

namespace Entries

variable {α : Type}

-- ==================================================== operations

/-- The keys, in order. -/
def keys (entries : Entries α) : List Text := entries.map Prod.fst

/-- The value under a key. -/
def get? : Entries α → Text → Option α
  | [], _ => none
  | (k, v) :: rest, key => if k = key then some v else get? rest key

/-- Whether there is a value under a key. -/
def contains (entries : Entries α) (key : Text) : Bool :=
  (get? entries key).isSome

/-- Writes a value under a key: in place if the key is there, else at the
end. -/
def insert : Entries α → Text → α → Entries α
  | [], key, value => [(key, value)]
  | (k, v) :: rest, key, value =>
    if k = key then (key, value) :: rest else (k, v) :: insert rest key value

/-- Removes a key with its value; the others keep their order. -/
def erase : Entries α → Text → Entries α
  | [], _ => []
  | (k, v) :: rest, key => if k = key then rest else (k, v) :: erase rest key

/-- Removes a key and gives the value that stood under it. -/
def remove : Entries α → Text → Option α × Entries α
  | [], _ => (none, [])
  | (k, v) :: rest, key =>
    if k = key then (some v, rest)
    else
      let (value, others) := remove rest key
      (value, (k, v) :: others)

/-- Writes all pairs, one after the other. -/
def extend (entries : Entries α) (pairs : List (Text × α)) : Entries α :=
  pairs.foldl (fun es pair => insert es pair.1 pair.2) entries

/-- The map that results from writing all pairs: a repeated key keeps its first
place and its last value. -/
def ofList (pairs : List (Text × α)) : Entries α := extend [] pairs

/-- No key stands twice. -/
def Distinct (entries : Entries α) : Prop := (keys entries).Nodup

-- =================================================== their views

@[simp] theorem get?_nil (key : Text) : get? ([] : Entries α) key = none := rfl

/-- The first entry of a key is the one that is looked up. -/
theorem get?_cons (k : Text) (v : α) (rest : Entries α) (key : Text) :
    get? ((k, v) :: rest) key
      = if k = key then some v else get? rest key := rfl

@[simp] theorem keys_nil : keys ([] : Entries α) = [] := rfl

@[simp] theorem keys_cons (k : Text) (v : α) (rest : Entries α) :
    keys ((k, v) :: rest) = k :: keys rest := rfl

/-- A key has a value exactly when it is one of the keys. -/
theorem get?_eq_none_iff {entries : Entries α} {key : Text} :
    get? entries key = none ↔ key ∉ keys entries := by
  induction entries with
  | nil => simp
  | cons entry rest ih =>
    obtain ⟨k, v⟩ := entry
    by_cases h : k = key
    · simp [get?_cons, h]
    · simp [get?_cons, h, ih, Ne.symm h]

/-- What was written is read back, and no other key is touched. -/
theorem get?_insert (entries : Entries α) (key : Text) (value : α)
    (other : Text) :
    get? (insert entries key value) other
      = if key = other then some value else get? entries other := by
  induction entries with
  | nil => rfl
  | cons entry rest ih =>
    obtain ⟨k, v⟩ := entry
    by_cases hk : k = key
    · subst hk
      by_cases ho : k = other <;> simp [insert, get?_cons, ho]
    · by_cases ho : k = other
      · subst ho
        simp [insert, hk, get?_cons, Ne.symm hk]
      · simp [insert, hk, get?_cons, ho, ih]

/-- Writing changes the order of keys only by a new key at the end. -/
theorem keys_insert (entries : Entries α) (key : Text) (value : α) :
    keys (insert entries key value)
      = if key ∈ keys entries then keys entries
        else keys entries ++ [key] := by
  induction entries with
  | nil => rfl
  | cons entry rest ih =>
    obtain ⟨k, v⟩ := entry
    by_cases hk : k = key
    · subst hk
      simp [insert]
    · by_cases hmem : key ∈ keys rest <;>
        simp [insert, hk, Ne.symm hk, ih, hmem]

/-- Removing drops the key and nothing else. -/
theorem keys_erase (entries : Entries α) (key : Text) :
    keys (erase entries key) = (keys entries).erase key := by
  induction entries with
  | nil => rfl
  | cons entry rest ih =>
    obtain ⟨k, v⟩ := entry
    by_cases hk : k = key
    · simp [erase, hk]
    · simp [erase, hk, ih]

/-- Removing touches no other key. -/
theorem get?_erase {key other : Text} (h : other ≠ key) (entries : Entries α) :
    get? (erase entries key) other = get? entries other := by
  induction entries with
  | nil => rfl
  | cons entry rest ih =>
    obtain ⟨k, v⟩ := entry
    by_cases hk : k = key
    · subst hk
      simp [erase, get?_cons, Ne.symm h]
    · simp [erase, hk, get?_cons, ih]

/-- The value that removing gives is the one that reading gives, and what it
leaves is the map without the key. -/
theorem remove_eq (entries : Entries α) (key : Text) :
    remove entries key = (get? entries key, erase entries key) := by
  induction entries with
  | nil => rfl
  | cons entry rest ih =>
    obtain ⟨k, v⟩ := entry
    by_cases hk : k = key
    · simp [remove, get?_cons, erase, hk]
    · simp [remove, get?_cons, erase, hk, ih]

/-- What a map holds after writing was there before or was written. -/
theorem mem_insert {entries : Entries α} {key : Text} {value : α}
    {entry : Text × α}
    (h : entry ∈ insert entries key value) :
    entry ∈ entries ∨ entry = (key, value) := by
  induction entries with
  | nil => exact .inr (List.mem_singleton.1 h)
  | cons first rest ih =>
    obtain ⟨k, v⟩ := first
    rw [insert] at h
    split at h
    · rcases List.mem_cons.1 h with heq | hrest
      · exact .inr heq
      · exact .inl (List.mem_cons_of_mem _ hrest)
    · rcases List.mem_cons.1 h with heq | hrest
      · exact .inl (heq ▸ List.mem_cons_self ..)
      · exact (ih hrest).imp_left (List.mem_cons_of_mem _)

/-- An entry behind several writes was there before or was written. -/
theorem mem_extend {entries : Entries α} {pairs : List (Text × α)}
    {entry : Text × α}
    (h : entry ∈ extend entries pairs) : entry ∈ entries ∨ entry ∈ pairs := by
  induction pairs generalizing entries with
  | nil => exact .inl h
  | cons pair pairs ih =>
    have hmem : entry ∈ insert entries pair.1 pair.2 ∨ entry ∈ pairs := ih h
    rcases hmem with hmem | hmem
    · rcases mem_insert hmem with hmem | rfl
      · exact .inl hmem
      · exact .inr (List.mem_cons_self ..)
    · exact .inr (List.mem_cons_of_mem _ hmem)

/-- A new key goes to the end. -/
theorem insert_of_not_mem {entries : Entries α} {key : Text}
    (h : key ∉ keys entries) (value : α) :
    insert entries key value = entries ++ [(key, value)] := by
  induction entries with
  | nil => rfl
  | cons entry rest ih =>
    obtain ⟨k, v⟩ := entry
    rw [keys_cons, List.mem_cons, not_or] at h
    rw [insert, if_neg (Ne.symm h.1), ih h.2, List.cons_append]

/-- Pairs are written one part after the other. -/
theorem extend_append (entries : Entries α) (a b : List (Text × α)) :
    extend entries (a ++ b) = extend (extend entries a) b :=
  List.foldl_append ..

-- ============================================= keys stay distinct

/-- Writing keeps the keys distinct. -/
theorem Distinct.insert {entries : Entries α} (h : Distinct entries)
    (key : Text) (value : α) :
    Distinct (insert entries key value) := by
  unfold Distinct at *
  rw [keys_insert]
  split
  · exact h
  · next hmem =>
    refine List.nodup_append.2 ⟨h, by simp, ?_⟩
    rintro a ha b hb rfl
    exact hmem (List.mem_singleton.1 hb ▸ ha)

/-- So does erasing. -/
theorem Distinct.erase {entries : Entries α} (h : Distinct entries)
    (key : Text) :
    Distinct (erase entries key) := by
  unfold Distinct at *
  rw [keys_erase]
  exact h.erase key

/-- And so do several writes. -/
theorem Distinct.extend {entries : Entries α} (h : Distinct entries)
    (pairs : List (Text × α)) :
    Distinct (extend entries pairs) := by
  unfold Entries.extend
  induction pairs generalizing entries with
  | nil => exact h
  | cons pair pairs ih => exact ih (h.insert pair.1 pair.2)

/-- Whatever the pairs, the map built from them has distinct keys. -/
theorem distinct_ofList (pairs : List (Text × α)) : Distinct (ofList pairs) :=
  Distinct.extend (show Distinct [] from List.nodup_nil) pairs

/-- Pairs with keys of their own are added as they stand. -/
theorem extend_eq_append {entries pairs : Entries α}
    (h : Distinct (entries ++ pairs)) :
    extend entries pairs = entries ++ pairs := by
  induction pairs generalizing entries with
  | nil => exact (List.append_nil entries).symm
  | cons pair pairs ih =>
    obtain ⟨key, value⟩ := pair
    have hnew : key ∉ keys entries := fun hmem => by
      unfold Distinct keys at h
      rw [List.map_append] at h
      exact (List.nodup_append.1 h).2.2 key hmem key
        (List.mem_cons_self ..) rfl
    show extend (insert entries key value) pairs = _
    rw [List.append_cons] at h ⊢
    rw [insert_of_not_mem hnew, ih h]

/-- Writing a map into an empty one gives the map again. -/
theorem ofList_eq_self {entries : Entries α} (h : Distinct entries) :
    ofList entries = entries :=
  extend_eq_append h

-- ======================================== another kind of values

variable {β : Type}

/-- The map with another value under every key. -/
def mapValues (f : α → β) (entries : Entries α) : Entries β :=
  entries.map fun entry => (entry.1, f entry.2)

@[simp] theorem mapValues_nil (f : α → β) : mapValues f [] = [] := rfl

@[simp] theorem mapValues_cons (f : α → β) (entry : Text × α)
    (rest : Entries α) :
    mapValues f (entry :: rest)
      = (entry.1, f entry.2) :: mapValues f rest := rfl

/-- It makes no difference whether values are changed before or after they are
written. -/
theorem mapValues_insert (f : α → β) (entries : Entries α) (key : Text)
    (value : α) :
    mapValues f (insert entries key value)
      = insert (mapValues f entries) key (f value) := by
  induction entries with
  | nil => rfl
  | cons entry rest ih =>
    obtain ⟨k, v⟩ := entry
    by_cases hk : k = key <;> simp [insert, hk, ih]

/-- Values may be changed before they are written or afterwards. -/
theorem mapValues_extend (f : α → β) (entries : Entries α)
    (pairs : List (Text × α)) :
    mapValues f (extend entries pairs)
      = extend (mapValues f entries) (mapValues f pairs) := by
  induction pairs generalizing entries with
  | nil => rfl
  | cons pair pairs ih =>
    show mapValues f (extend (insert entries pair.1 pair.2) pairs)
      = extend (insert (mapValues f entries) pair.1 (f pair.2))
        (mapValues f pairs)
    rw [ih, mapValues_insert]

end Entries

end StyleTree
