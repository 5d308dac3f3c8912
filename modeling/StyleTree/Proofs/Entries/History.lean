/-
A map and its history. Of all that was done to a map since it was begun, a key
depends on what came after its last removal: the last write gives its value,
the first one its place (`run_keeps_last_writes`).

# The invariant

Operations are taken apart into events, each of which writes one key, removes
one, or empties the map. What the history says of a key is read off its end:
`sinceRemoval` is the longest end that does not take the key away,
`lastWritten?` the last value in it, and `age` its length from the first write
on. So one more event changes these by a simple equation each (`…_concat`), and
`Reflects`, which says that the map agrees with them, is kept by every event. A
write to a key that is there makes all keys one older; a write to a new key
puts the youngest to the end; a removal only leaves out.

The maps are those of any kind of values: the entries of a style object, the
style objects of a sheet, and custom properties.
-/
import Mathlib.Data.List.DropRight
import Mathlib.Data.Set.Card
import StyleTree.Entries

namespace StyleTree.Entries

variable {α : Type}

-- ======================================================= operations

/-- What can be done to a map. Writing into the map and building another map
with one more entry are the same here. -/
inductive Operation (α : Type) where
  | insert (key : Text) (value : α)
  | remove (key : Text)
  /-- Writes the entries of another map, one after the other. -/
  | extend (pairs : List (Text × α))
  /-- Begins a new map from these pairs. -/
  | collect (pairs : List (Text × α))

/-- The map after an operation. -/
def Operation.apply (entries : Entries α) : Operation α → Entries α
  | insert key value => Entries.insert entries key value
  | remove key => (Entries.remove entries key).2
  | extend pairs => Entries.extend entries pairs
  | collect pairs => Entries.ofList pairs

/-- The map after all operations, from an empty one. -/
def run (operations : List (Operation α)) : Entries α :=
  operations.foldl Operation.apply []

-- =========================================================== events

/-- What happens to a map, one key at a time. -/
inductive Event (α : Type) where
  | wrote (key : Text) (value : α)
  | removed (key : Text)
  /-- All keys were removed. -/
  | emptied

/-- The events of an operation, in order. -/
def Operation.events : Operation α → List (Event α)
  | insert key value => [.wrote key value]
  | remove key => [.removed key]
  | extend pairs => pairs.map fun pair => .wrote pair.1 pair.2
  | collect pairs => .emptied :: pairs.map fun pair => .wrote pair.1 pair.2

/-- The events of all operations, in order. -/
def history (operations : List (Operation α)) : List (Event α) :=
  operations.flatMap Operation.events

namespace Event

/-- Whether the event takes the key away. -/
def drops (key : Text) : Event α → Bool
  | wrote .. => false
  | removed other => other = key
  | emptied => true

/-- The value that the event writes under the key. -/
def value? (key : Text) : Event α → Option α
  | wrote other value => if other = key then some value else none
  | _ => none

/-- The map after the event. -/
def apply (entries : Entries α) : Event α → Entries α
  | wrote key value => insert entries key value
  | removed key => erase entries key
  | emptied => []

theorem drops_wrote (key other : Text) (value : α) :
    (wrote other value).drops key = false := rfl

end Event

/-- An operation does what its events do. -/
theorem Operation.apply_eq_foldl (entries : Entries α)
    (operation : Operation α) :
    operation.apply entries = operation.events.foldl Event.apply entries := by
  have hpairs (entries : Entries α) (pairs : List (Text × α)) :
      Entries.extend entries pairs
        = (pairs.map fun pair => Event.wrote pair.1 pair.2).foldl Event.apply
            entries := by
    rw [List.foldl_map]
    rfl
  cases operation with
  | insert key value => rfl
  | remove key => exact congrArg Prod.snd (remove_eq entries key)
  | extend pairs => exact hpairs entries pairs
  | collect pairs => exact hpairs [] pairs

/-- A run takes the events of its history one after the other. -/
theorem run_eq_foldl (operations : List (Operation α)) :
    run operations = (history operations).foldl Event.apply [] := by
  unfold run history
  rw [List.foldl_flatMap]
  congr
  funext entries operation
  exact operation.apply_eq_foldl entries

-- ============================================== what a history says

/-- The events since the key was last taken away. -/
def sinceRemoval (key : Text) (events : List (Event α)) : List (Event α) :=
  events.rtakeWhile fun event => !event.drops key

/-- The value that was last written to the key since it was last taken
away. -/
def lastWritten? (key : Text) (events : List (Event α)) : Option α :=
  ((sinceRemoval key events).filterMap (Event.value? key)).getLast?

/-- How many events there were from the first write to the key since it was
last taken away; none if it was not written since. The earlier that write, the
greater the age. -/
def age (key : Text) (events : List (Event α)) : Nat :=
  ((sinceRemoval key events).dropWhile fun event =>
    (event.value? key).isNone).length

variable {key : Text} {events : List (Event α)} {event : Event α}

/-- One more event comes last, unless it removes the key. -/
theorem sinceRemoval_concat (key : Text) (events : List (Event α))
    (event : Event α) :
    sinceRemoval key (events ++ [event])
      = if event.drops key then []
        else sinceRemoval key events ++ [event] := by
  unfold sinceRemoval
  rw [List.rtakeWhile_concat]
  cases event.drops key <;> rfl

/-- The last event decides, if it is about the key. -/
theorem lastWritten?_concat (key : Text) (events : List (Event α))
    (event : Event α) :
    lastWritten? key (events ++ [event])
      = if event.drops key then none
        else (event.value? key).or (lastWritten? key events) := by
  unfold lastWritten?
  rw [sinceRemoval_concat]
  split
  · rfl
  · rw [List.filterMap_append, List.getLast?_append]
    cases hvalue : event.value? key <;> simp [hvalue]

/-- A key has an age exactly if it was written. -/
theorem age_eq_zero_iff :
    age key events = 0 ↔ lastWritten? key events = none := by
  unfold age lastWritten?
  rw [List.length_eq_zero_iff, List.dropWhile_eq_nil_iff,
    List.getLast?_eq_none_iff, List.filterMap_eq_nil_iff]
  simp only [Option.isNone_iff_eq_none]

/-- A key that stays grows older. -/
theorem age_concat_of_written (h : event.drops key = false)
    (hwritten : lastWritten? key events ≠ none) :
    age key (events ++ [event]) = age key events + 1 := by
  have hage : age key events ≠ 0 := mt age_eq_zero_iff.1 hwritten
  unfold age at *
  rw [sinceRemoval_concat, if_neg (by simp [h]), List.dropWhile_append, if_neg,
    List.length_append, List.length_singleton]
  rwa [List.isEmpty_iff, ← List.length_eq_zero_iff]

/-- A key that comes is the youngest. -/
theorem age_concat_of_new {value : α}
    (hnew : lastWritten? key events = none) :
    age key (events ++ [.wrote key value]) = 1 := by
  have hage : age key events = 0 := age_eq_zero_iff.2 hnew
  unfold age at *
  rw [sinceRemoval_concat, Event.drops_wrote, if_neg Bool.false_ne_true,
    List.dropWhile_append, if_pos]
  · simp [Event.value?]
  · rwa [List.isEmpty_iff, ← List.length_eq_zero_iff]

-- ======================================================== the invariant

/-- The map is the one that the history tells of. -/
structure Reflects (events : List (Event α)) (entries : Entries α) : Prop where
  distinct : Distinct entries
  value : ∀ key, get? entries key = lastWritten? key events
  order : (keys entries).Pairwise fun a b => age b events < age a events

namespace Reflects

variable {entries : Entries α}

theorem nil : Reflects [] ([] : Entries α) :=
  ⟨List.nodup_nil, fun _ => rfl, List.Pairwise.nil⟩

/-- The keys are those that have a value. -/
theorem mem_keys_iff (h : Reflects events entries) :
    key ∈ keys entries ↔ lastWritten? key events ≠ none := by
  rw [← h.value, Ne, get?_eq_none_iff, not_not]

/-- Keys that all stay keep their order. -/
theorem order_concat (h : Reflects events entries) {kept : List Text}
    (hsub : kept.Sublist (keys entries))
    (hstay : ∀ key ∈ kept, event.drops key = false) :
    kept.Pairwise fun a b =>
      age b (events ++ [event]) < age a (events ++ [event]) := by
  refine (h.order.sublist hsub).imp_of_mem fun {a b} ha hb hlt => ?_
  have hgrow : ∀ key ∈ kept,
      age key (events ++ [event]) = age key events + 1 := fun key hkey =>
    age_concat_of_written (hstay key hkey)
      (h.mem_keys_iff.1 (hsub.subset hkey))
  rw [hgrow a ha, hgrow b hb]
  omega

/-- A value that is written goes to the key's place, or to the end. -/
theorem wrote (h : Reflects events entries) (key : Text) (value : α) :
    Reflects (events ++ [.wrote key value]) (insert entries key value) where
  distinct := h.distinct.insert key value
  value other := by
    rw [get?_insert, lastWritten?_concat, Event.drops_wrote,
      if_neg Bool.false_ne_true, h.value]
    by_cases heq : key = other <;> simp [Event.value?, heq]
  order := by
    have hold : (keys entries).Pairwise fun a b =>
        age b (events ++ [.wrote key value])
          < age a (events ++ [.wrote key value]) :=
      h.order_concat (List.Sublist.refl _) fun _ _ => rfl
    rw [keys_insert]
    split
    · exact hold
    · next hmem =>
      -- a key that is not there yet is the youngest of all
      have hnew : lastWritten? key events = none :=
        Classical.not_not.1 (mt h.mem_keys_iff.2 hmem)
      refine List.pairwise_append.2 ⟨hold, List.pairwise_singleton .., ?_⟩
      intro a ha b hb
      have hwritten : lastWritten? a events ≠ none := h.mem_keys_iff.1 ha
      have hage : age a events ≠ 0 := mt age_eq_zero_iff.1 hwritten
      rw [List.mem_singleton.1 hb, age_concat_of_new hnew,
        age_concat_of_written rfl hwritten]
      omega

/-- A key that is removed has no place and no value. -/
theorem removed (h : Reflects events entries) (key : Text) :
    Reflects (events ++ [.removed key]) (erase entries key) where
  distinct := h.distinct.erase key
  value other := by
    rw [lastWritten?_concat]
    by_cases heq : other = key
    · subst heq
      rw [if_pos (by simp [Event.drops]), get?_eq_none_iff, keys_erase]
      exact h.distinct.not_mem_erase
    · rw [if_neg (by simpa [Event.drops] using Ne.symm heq),
        get?_erase heq, h.value]
      rfl
  order := by
    rw [keys_erase]
    refine h.order_concat List.erase_sublist fun other hother => ?_
    have hne : other ≠ key := (h.distinct.mem_erase_iff.1 hother).1
    exact decide_eq_false (Ne.symm hne)

/-- Nothing is left after everything was removed. -/
theorem emptied : Reflects (events ++ [.emptied]) ([] : Entries α) where
  distinct := List.nodup_nil
  value key := by
    rw [lastWritten?_concat]
    rfl
  order := List.Pairwise.nil

/-- Every event keeps the map in line with the history. -/
theorem step (h : Reflects events entries) (event : Event α) :
    Reflects (events ++ [event]) (event.apply entries) := by
  cases event with
  | wrote key value => exact h.wrote key value
  | removed key => exact h.removed key
  | emptied => exact emptied

/-- So entries reflect their history if they did at any time before. -/
theorem foldl (h : Reflects events entries) (later : List (Event α)) :
    Reflects (events ++ later) (later.foldl Event.apply entries) := by
  induction later generalizing events entries with
  | nil => rwa [List.append_nil]
  | cons event later ih =>
    rw [List.append_cons]
    exact ih (h.step event)

/-- There are as many entries as keys that were written and stayed. -/
theorem length_eq (h : Reflects events entries) :
    entries.length = {key | lastWritten? key events ≠ none}.ncard := by
  have hkeys : {key | lastWritten? key events ≠ none}
      = ((keys entries).toFinset : Set Text) := by
    ext key
    simp only [Set.mem_ofPred_eq, List.coe_toFinset]
    exact h.mem_keys_iff.symm
  rw [hkeys, Set.ncard_coe_finset, List.toFinset_card_of_nodup h.distinct,
    keys, List.length_map]

end Reflects

/-- Every run ends with the entries that its history tells. -/
theorem reflects_run (operations : List (Operation α)) :
    Reflects (history operations) (run operations) := by
  rw [run_eq_foldl]
  exact Reflects.nil.foldl (history operations)

-- ============================================================ whole runs

/-- Whatever is done to a map, its keys are distinct, each has the value that
was last written to it since its last removal, and they stand in the order of
their first writes since then. Removing a key gives the value that reading
gives, and leaves the other keys with their values and in their order. -/
theorem run_keeps_last_writes (operations : List (Operation α)) :
    Distinct (run operations)
    ∧ (∀ key,
      get? (run operations) key = lastWritten? key (history operations))
    ∧ (keys (run operations)).Pairwise (fun a b =>
      age b (history operations) < age a (history operations))
    ∧ (run operations).length
      = {key | lastWritten? key (history operations) ≠ none}.ncard
    ∧ ∀ key, (remove (run operations) key).1 = get? (run operations) key
      ∧ (∀ other, other ≠ key →
        get? (remove (run operations) key).2 other
          = get? (run operations) other)
      ∧ keys (remove (run operations) key).2
        = (keys (run operations)).filter (· != key) := by
  have h := reflects_run operations
  refine ⟨h.distinct, h.value, h.order, h.length_eq, fun key => ?_⟩
  rw [remove_eq]
  refine ⟨rfl, fun other hother => get?_erase hother _, ?_⟩
  rw [keys_erase, h.distinct.erase_eq_filter]

example : keys (run [.insert ['a'] 1, .insert ['b'] 2, .insert ['a'] 3,
    .remove ['b'], .extend [(['c'], 4), (['b'], 5)]])
      = [['a'], ['c'], ['b']] := by
  decide

end StyleTree.Entries
