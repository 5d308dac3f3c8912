/-
Writing pairs one after the other. Of a repeated key the map keeps the first
place and the last value, and that list can be written down without any map
(`lastWins`): it is what a fold of writes amounts to (`ofList_eq_lastWins`).

A map is its keys and what is read under them (`ext`), so both are followed
through a fold apart. What is written into a map then only counts through the
map that it would be on its own (`keys_extend`, `get?_extend`). For this reason
parts may be collected first and written together later (`extend_ofList`).
-/
import Mathlib.Data.List.Basic
import Mathlib.Data.List.Induction
import StyleTree.Entries

namespace StyleTree.Entries

variable {α : Type} {a b entries : Entries α}

-- ======================================================= keys and values

/-- A map with distinct keys is what is read under its keys, in order. -/
theorem Distinct.eq_filterMap_keys (h : Distinct entries) :
    entries = (keys entries).filterMap fun key =>
      (get? entries key).map fun value => (key, value) := by
  induction entries with
  | nil => rfl
  | cons entry rest ih =>
    obtain ⟨k, v⟩ := entry
    obtain ⟨hk, hrest⟩ := List.nodup_cons.1 h
    have hbelow : ∀ key ∈ keys rest,
        ((get? ((k, v) :: rest) key).map fun value => (key, value))
          = (get? rest key).map fun value => (key, value) := by
      rintro key hkey
      rw [get?_cons, if_neg]
      rintro rfl
      exact hk hkey
    rw [keys_cons, List.filterMap_cons, get?_cons, if_pos rfl, Option.map_some,
      List.filterMap_congr hbelow]
    exact congrArg _ (ih hrest)

/-- Entries are given by the order of their keys and by the value of each
key. -/
theorem ext (ha : Distinct a) (hkeys : keys a = keys b)
    (hget : ∀ key, get? a key = get? b key) : a = b := by
  have hb : Distinct b := by
    unfold Distinct at *
    rwa [← hkeys]
  rw [ha.eq_filterMap_keys, hb.eq_filterMap_keys, hkeys]
  simp only [hget]

-- ================================================ one write after another

variable {pairs : List (Text × α)}

theorem extend_concat (entries : Entries α) (pairs : List (Text × α))
    (pair : Text × α) :
    extend entries (pairs ++ [pair])
      = insert (extend entries pairs) pair.1 pair.2 :=
  extend_append ..

/-- The keys are in the order in which they come first. -/
theorem keys_ofList (pairs : List (Text × α)) :
    keys (ofList pairs) = (pairs.map Prod.fst).eraseDups := by
  induction pairs using List.reverseRecOn with
  | nil => rfl
  | append_singleton pairs pair ih =>
    rw [ofList, extend_concat, keys_insert, ← ofList, ih, List.map_append,
      List.eraseDups_append]
    by_cases hmem : pair.1 ∈ pairs.map Prod.fst
    · simp [List.removeAll, hmem]
    · simp [List.removeAll, hmem, List.eraseDups_cons]

/-- The value of a key is the last one that was written under it. -/
theorem get?_ofList (pairs : List (Text × α)) (key : Text) :
    get? (ofList pairs) key
      = (pairs.reverse.find? fun pair => pair.1 = key).map Prod.snd := by
  induction pairs using List.reverseRecOn with
  | nil => rfl
  | append_singleton pairs pair ih =>
    rw [ofList, extend_concat, get?_insert, ← ofList, ih, List.reverse_concat,
      List.find?_cons]
    by_cases heq : pair.1 = key <;> simp [heq]

/-- Extending keeps the order, and new keys come behind. -/
theorem keys_extend (entries : Entries α) (pairs : List (Text × α)) :
    keys (extend entries pairs)
      = keys entries ++ (keys (ofList pairs)).filter (· ∉ keys entries) := by
  induction pairs using List.reverseRecOn with
  | nil => exact (List.append_nil _).symm
  | append_singleton pairs pair ih =>
    rw [ofList, extend_concat, extend_concat, keys_insert, keys_insert,
      ← ofList, ih]
    by_cases hold : pair.1 ∈ keys entries
    · by_cases hnew : pair.1 ∈ keys (ofList pairs) <;> simp [hold, hnew]
    · by_cases hnew : pair.1 ∈ keys (ofList pairs) <;> simp [hold, hnew]

/-- The values of the pairs win over those that were there. -/
theorem get?_extend (entries : Entries α) (pairs : List (Text × α))
    (key : Text) :
    get? (extend entries pairs) key
      = (get? (ofList pairs) key).or (get? entries key) := by
  induction pairs using List.reverseRecOn with
  | nil => rfl
  | append_singleton pairs pair ih =>
    rw [ofList, extend_concat, extend_concat, get?_insert, get?_insert,
      ← ofList, ih]
    split <;> rfl

/-- Pairs may be collected into a map of their own before they are written. -/
theorem extend_ofList (h : Distinct entries) (pairs : List (Text × α)) :
    extend entries (ofList pairs) = extend entries pairs := by
  have hself : ofList (ofList pairs) = ofList pairs :=
    ofList_eq_self (distinct_ofList pairs)
  refine ext (h.extend _) ?_ fun key => ?_
  · rw [keys_extend, keys_extend, hself]
  · rw [get?_extend, get?_extend, hself]

/-- A map with one key is what is written into it without that key, behind the
key with the value that it has in the end. -/
theorem extend_singleton (h : Distinct entries) (key : Text) (value : α) :
    extend [(key, value)] entries
      = (key, (get? entries key).getD value) :: erase entries key := by
  have hsingle : Distinct [(key, value)] := List.pairwise_singleton _ key
  refine ext (hsingle.extend _) ?_ fun other => ?_
  · rw [keys_extend, ofList_eq_self h, keys_cons, keys_cons, keys_erase,
      List.Nodup.erase_eq_filter h]
    refine congrArg (key :: ·) (List.filter_congr fun other _ => ?_)
    by_cases heq : other = key <;> simp [heq]
  · rw [get?_extend, ofList_eq_self h, get?_cons, get?_cons, get?_nil]
    by_cases heq : key = other
    · subst heq
      cases get? entries key <;> simp
    · rw [if_neg heq, if_neg heq, get?_erase (Ne.symm heq), Option.or_none]

-- ============================================== the last value of a key

/-- The pairs without repetitions: every key stands where it comes first, with
the value that it comes with last. -/
def lastWins (pairs : List (Text × α)) : List (Text × α) :=
  (pairs.map Prod.fst).eraseDups.filterMap fun key =>
    pairs.reverse.find? fun pair => pair.1 = key

/-- What is written pair by pair is what the rule says: the first place of a
key with its last value. -/
theorem ofList_eq_lastWins (pairs : List (Text × α)) :
    ofList pairs = lastWins pairs := by
  rw [(distinct_ofList pairs).eq_filterMap_keys, keys_ofList]
  refine List.filterMap_congr fun key _ => ?_
  rw [get?_ofList]
  cases hfound : pairs.reverse.find? fun pair => pair.1 = key with
  | none => rfl
  | some pair =>
    obtain rfl : pair.1 = key := by simpa using List.find?_some hfound
    rfl

example : lastWins [(['a'], 1), (['b'], 2), (['a'], 3)]
    = [(['a'], 3), (['b'], 2)] := by
  decide

end StyleTree.Entries
