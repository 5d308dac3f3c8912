/-
The leaves of a token tree. A leaf stands at the end of a path of keys
(`Style.mem_leaves_iff`), and the keys of the path, each of them spelled, make
its name. How a key is spelled is said here once more, without the function
that does it (`KeySpelling.spelled`). Flattening goes through the tree with the
name so far and the properties so far; what it writes are the leaves in order,
each under the name of its path (`TokenGroup.flatten_eq`).

A group is flattened into a map of its own, and the maps of all groups into one
more. Leaves of different paths, depths and groups can have one name, so a
value may be replaced on both levels; still that comes to one list of leaves
(`TokenGroup.flattenAll_eq_lastWins`).

The induction is over the tree, for any properties that are there already. The
hyphen behind an object is written before what is under it is known, so it is
put in front of the path there (`KeySpelling.path_cons`), which needs that no
leaf of a tree has the empty path.
-/
import StyleTree.Proofs.Entries.LastWins
import StyleTree.Proofs.Text.Trim
import StyleTree.Style.Tokens

namespace StyleTree

-- ============================================================ leaves

/-- A value that is neither null nor an object. -/
def Value.IsPlain (value : Value) : Prop :=
  value.isNull = false ∧ value.object? = none

mutual

/-- The leaves of a token tree, with the keys on the way to them. -/
def Style.leaves : List (Text × Value) → List (List Text × Value)
  | [] => []
  | entry :: rest => Style.leavesOfEntry entry ++ Style.leaves rest
termination_by structural tree => tree

/-- The leaves of an entry, each behind the key of the entry. -/
def Style.leavesOfEntry : Text × Value → List (List Text × Value)
  | (key, value) =>
    (Style.leavesOfValue value).map fun leaf => (key :: leaf.1, leaf.2)
termination_by structural entry => entry

/-- The leaves of a value, with the keys inside of it. A plain value is its own
leaf. -/
def Style.leavesOfValue : Value → List (List Text × Value)
  | .null => []
  | .object tree => Style.leaves tree
  | .bool flag => [([], .bool flag)]
  | .number value => [([], .number value)]
  | .text value => [([], .text value)]
  | .array items => [([], .array items)]
termination_by structural value => value

end

namespace Style

/-- The keys lead to the value, one object below the other. -/
inductive LeadsTo : Style → List Text → Value → Prop
  | here {tree : Style} {key : Text} {value : Value}
      (hentry : (key, value) ∈ tree) : LeadsTo tree [key] value
  | inside {tree body : Style} {key : Text} {keys : List Text} {value : Value}
      (hentry : (key, .object body) ∈ tree) (hbody : LeadsTo body keys value) :
      LeadsTo tree (key :: keys) value

theorem mem_leaves {tree : Style} {leaf : List Text × Value} :
    leaf ∈ leaves tree ↔ ∃ entry ∈ tree, leaf ∈ leavesOfEntry entry := by
  induction tree with
  | nil => simp [leaves]
  | cons entry rest ih => simp [leaves, ih]

/-- A plain value is a leaf. -/
theorem leavesOfValue_of_isPlain {value : Value} (h : value.IsPlain) :
    leavesOfValue value = [([], value)] := by
  cases value with
  | null => cases h.1
  | object tree => cases h.2
  | _ => rfl

/-- The leaves are all the plain values that keys lead to. The induction is on
the keys. -/
theorem mem_leaves_iff {tree : Style} {keys : List Text} {value : Value} :
    (keys, value) ∈ leaves tree ↔ LeadsTo tree keys value ∧ value.IsPlain := by
  induction keys generalizing tree with
  | nil =>
    refine ⟨fun h => ?_, fun h => nomatch h.1⟩
    obtain ⟨⟨key, below⟩, -, hleaf⟩ := mem_leaves.1 h
    -- every leaf of a tree has a key in front
    obtain ⟨leaf, -, heq⟩ := List.mem_map.1 hleaf
    cases heq
  | cons key keys ih =>
    constructor
    · intro h
      obtain ⟨⟨other, below⟩, hentry, hmem⟩ := mem_leaves.1 h
      obtain ⟨⟨keys, value⟩, hleaf, heq⟩ := List.mem_map.1 hmem
      cases heq
      cases below with
      | null => cases hleaf
      | object body =>
        obtain ⟨hbody, hplain⟩ := ih.1 hleaf
        exact ⟨.inside hentry hbody, hplain⟩
      | _ =>
        cases List.mem_singleton.1 hleaf
        exact ⟨.here hentry, rfl, rfl⟩
    · rintro ⟨hpath, hplain⟩
      cases hpath with
      | here hentry =>
        refine mem_leaves.2 ⟨_, hentry, List.mem_map.2 ⟨([], value), ?_, rfl⟩⟩
        rw [leavesOfValue_of_isPlain hplain]
        exact List.mem_singleton_self _
      | inside hentry hbody =>
        have hleaf := ih.2 ⟨hbody, hplain⟩
        exact mem_leaves.2 ⟨_, hentry,
          List.mem_map.2 ⟨(keys, value), hleaf, rfl⟩⟩

/-- There is a key on the way to every leaf. -/
theorem LeadsTo.ne_nil {tree : Style} {keys : List Text} {value : Value}
    (h : LeadsTo tree keys value) : keys ≠ [] := by
  cases h <;> exact List.cons_ne_nil _ _

end Style

-- ======================================================== flattening

/-- The text starts with one of the ten ASCII digits. -/
def StartsWithDigit (text : Text) : Prop :=
  ∃ c ∈ text.head?, '0' ≤ c ∧ c ≤ '9'

instance (text : Text) : Decidable (StartsWithDigit text) :=
  match text with
  | [] => isFalse fun ⟨_, hc, _⟩ => nomatch hc
  | c :: _ =>
    decidable_of_iff ('0' ≤ c ∧ c ≤ '9')
      ⟨fun h => ⟨c, rfl, h⟩, fun ⟨_, hd, h⟩ => Option.some_inj.1 hd ▸ h⟩

namespace KeySpelling

variable {spelling : KeySpelling} {keys : List Text}

/-- How a key is spelled. One that starts with a digit is kept, whatever the
group asks for; kebab case has a hyphen and the small letter for each
capital. -/
def spelled (spelling : KeySpelling) (key : Text) : Text :=
  if StartsWithDigit key then key
  else match spelling with
  | verbatim => key
  | custom format => format key
  | kebab => key.flatMap fun c =>
    match lowerOfUpper? c with
    | some lower => '-' :: lower
    | none => [c]

/-- The keys on the way to a leaf, each of them spelled. -/
def path (spelling : KeySpelling) (keys : List Text) : Text :=
  ['-'].intercalate (keys.map spelling.spelled)

/-- The digits that the spelling of a key looks for are those of ASCII. -/
theorem isDigit_head?_iff {key : Text} :
    (key.head?.map Char.isDigit).getD false = true ↔ StartsWithDigit key := by
  cases key with
  | nil => simp [StartsWithDigit]
  | cons c rest =>
    simp [StartsWithDigit, Char.isDigit, Char.le_def]

/-- Keys are spelled as the rule says. -/
theorem apply_eq_spelled (spelling : KeySpelling) (key : Text) :
    spelling.apply key = spelling.spelled key := by
  unfold apply spelled
  simp only [isDigit_head?_iff]
  split
  · rfl
  · cases spelling with
    | verbatim => rfl
    | kebab => exact kebabCase_eq_hyphenate key
    | custom format => rfl

end KeySpelling

/-- The custom property under a stem that the keys on the way to a leaf
name. -/
def KeySpelling.name (spelling : KeySpelling) (stem : Text)
    (keys : List Text) : Text :=
  '-' :: '-' :: (stem ++ spelling.path keys)

namespace KeySpelling

/-- A path goes on behind a hyphen. -/
theorem path_cons {keys : List Text} (spelling : KeySpelling) (key : Text)
    (hkeys : keys ≠ []) :
    spelling.path (key :: keys)
      = spelling.spelled key ++ '-' :: spelling.path keys := by
  unfold path
  rw [List.map_cons, Text.intercalate_cons_of_ne_nil (by simpa using hkeys)]
  simp

end KeySpelling

mutual

/-- Every leaf is written under the name of the keys on the way to it. -/
theorem flattenInto_eq (spelling : KeySpelling) (stem : Text)
    (properties : CustomProperties) (tree : List (Text × Value)) :
    flattenInto spelling stem properties tree
      = Entries.extend properties ((Style.leaves tree).map fun leaf =>
          (spelling.name stem leaf.1, leaf.2)) := by
  cases tree with
  | nil => rfl
  | cons entry rest =>
    rw [flattenInto, Style.leaves, List.map_append, Entries.extend_append,
      flattenEntry_eq, flattenInto_eq]
termination_by structural tree

/-- Flattening an entry writes its leaves under their names. -/
theorem flattenEntry_eq (spelling : KeySpelling) (stem : Text)
    (properties : CustomProperties) (entry : Text × Value) :
    flattenEntry spelling stem properties entry
      = Entries.extend properties ((Style.leavesOfEntry entry).map fun leaf =>
          (spelling.name stem leaf.1, leaf.2)) := by
  cases entry with
  | mk key value =>
    rw [flattenEntry, KeySpelling.apply_eq_spelled, Style.leavesOfEntry,
      List.map_map]
    exact flattenValue_eq spelling stem key properties value
termination_by structural entry

/-- So does flattening a value, of which the name is already begun. -/
theorem flattenValue_eq (spelling : KeySpelling) (stem key : Text)
    (properties : CustomProperties) (value : Value) :
    flattenValue spelling (stem ++ spelling.spelled key) properties value
      = Entries.extend properties ((Style.leavesOfValue value).map fun leaf =>
          (spelling.name stem (key :: leaf.1), leaf.2)) := by
  have hleaf : '-' :: '-' :: (stem ++ spelling.spelled key)
      = spelling.name stem [key] := by
    unfold KeySpelling.name KeySpelling.path
    rw [List.map_cons, List.map_nil, List.intercalate_singleton]
  cases value with
  | null => rfl
  | object tree =>
    rw [flattenValue, flattenInto_eq, Style.leavesOfValue]
    congr 1
    refine List.map_congr_left fun leaf hleaf => ?_
    have hkeys := (Style.mem_leaves_iff.1 hleaf).1.ne_nil
    unfold KeySpelling.name
    rw [KeySpelling.path_cons spelling key hkeys]
    simp
  | _ =>
    rw [flattenValue, hleaf]
    rfl
termination_by structural value

end

namespace TokenGroup

variable {groups : List TokenGroup} {entry : Text × Value}

/-- The name of a leaf of the group. -/
def name (group : TokenGroup) (keys : List Text) : Text :=
  group.spelling.name group.stem keys

/-- The leaves of all groups by their names, group by group and in the order of
the trees. -/
def leafProperties (groups : List TokenGroup) : List (Text × Value) :=
  groups.flatMap fun group =>
    (Style.leaves group.tree).map fun leaf => (group.name leaf.1, leaf.2)

theorem leafProperties_cons (group : TokenGroup) (groups : List TokenGroup) :
    leafProperties (group :: groups)
      = ((Style.leaves group.tree).map fun leaf => (group.name leaf.1, leaf.2))
        ++ leafProperties groups := List.flatMap_cons ..

/-- A group is flattened to its leaves. -/
theorem flatten_eq (group : TokenGroup) :
    group.flatten = Entries.ofList ((Style.leaves group.tree).map fun leaf =>
      (group.name leaf.1, leaf.2)) :=
  flattenInto_eq group.spelling group.stem [] group.tree

/-- A group may be flattened on its own: what it writes comes to its leaves. -/
theorem foldl_extend_flatten {properties : CustomProperties}
    (h : Entries.Distinct properties) (groups : List TokenGroup) :
    groups.foldl (fun properties group =>
        Entries.extend properties group.flatten) properties
      = Entries.extend properties (leafProperties groups) := by
  induction groups generalizing properties with
  | nil => rfl
  | cons group groups ih =>
    rw [List.foldl_cons, flatten_eq, Entries.extend_ofList h, ih (h.extend _),
      leafProperties_cons, Entries.extend_append]

/-- Groups are flattened to the leaves of all of them. -/
theorem flattenAll_eq_ofList (groups : List TokenGroup) :
    flattenAll groups = Entries.ofList (leafProperties groups) :=
  foldl_extend_flatten (Entries.distinct_ofList []) groups

/-- All groups in one pass, with the properties so far handed on from one tree
to the next. -/
def flattenThrough (properties : CustomProperties) (groups : List TokenGroup) :
    CustomProperties :=
  groups.foldl (fun properties group =>
    flattenInto group.spelling group.stem properties group.tree) properties

/-- So are they behind properties that are already there. -/
theorem flattenThrough_eq (properties : CustomProperties)
    (groups : List TokenGroup) :
    flattenThrough properties groups
      = Entries.extend properties (leafProperties groups) := by
  unfold flattenThrough
  induction groups generalizing properties with
  | nil => rfl
  | cons group groups ih =>
    rw [List.foldl_cons, flattenInto_eq, ih, leafProperties_cons,
      Entries.extend_append]
    rfl

/-- All custom properties come from leaves. -/
theorem exists_leaf_of_mem (h : entry ∈ flattenAll groups) :
    ∃ group ∈ groups, ∃ leaf ∈ Style.leaves group.tree,
      entry = (group.name leaf.1, leaf.2) := by
  rw [flattenAll_eq_ofList] at h
  rcases Entries.mem_extend h with hnil | hmem
  · cases hnil
  · obtain ⟨group, hgroup, hentry⟩ := List.mem_flatMap.1 hmem
    obtain ⟨leaf, hleaf, rfl⟩ := List.mem_map.1 hentry
    exact ⟨group, hgroup, leaf, hleaf, rfl⟩

/-- The custom properties of some groups are their leaves, which are all the
plain values that keys lead to. A name that several leaves have stands where
the first of them is and has the value of the last. So it makes no difference
whether each group is flattened on its own or all are in one pass. -/
theorem flattenAll_eq_lastWins (groups : List TokenGroup) :
    flattenAll groups = Entries.lastWins (leafProperties groups)
    ∧ (∀ tree keys value, (keys, value) ∈ Style.leaves tree
        ↔ Style.LeadsTo tree keys value ∧ value.IsPlain)
    ∧ flattenAll groups = flattenThrough [] groups := by
  have hleaves := flattenAll_eq_ofList groups
  refine ⟨?_, fun _ _ _ => Style.mem_leaves_iff, ?_⟩
  · rw [hleaves, Entries.ofList_eq_lastWins]
  · rw [hleaves, flattenThrough_eq]
    rfl

/-- A longer path of the second group has the name of a shorter one of the
first. -/
example :
    let hyphenated : TokenGroup := ⟨"a-".toList,
      [("b-c".toList, .bool true), ("d".toList, .null),
        ("2D".toList, .number 1)], .kebab⟩
    let nested : TokenGroup := ⟨"a-".toList,
      [("b".toList, .object [("c".toList, .bool false)])], .verbatim⟩
    (flattenAll [hyphenated, nested]).map (fun entry =>
      (entry.1, entry.2.css?))
      = [("--a-b-c".toList, some "false".toList),
        ("--a-2D".toList, some "1px".toList)] := by
  decide +kernel

end TokenGroup

end StyleTree
