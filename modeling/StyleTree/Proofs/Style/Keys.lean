/-
How a key must be written to mean what it means. A key is read once, into the
role that it has (`Role.ofKey`). Here every role has a test on the text of the
key (`Role.IsOf`) that does not mention the readers: a class name key is that
text and nothing else, the other keys are taken without the blanks around them,
and what starts with `@` asks for a query or for nothing that is supported.

Of the tests exactly one holds for a key, and it is that of the role that is
read (`Role.ofKey_eq_iff`). Two keywords are told apart by their second
character, so a key asks for one query at most
(`Query.ofKey?_trim_eq_some_iff`).
-/
import Mathlib.Data.List.Infix
import StyleTree.Proofs.Text.Trim
import StyleTree.Style.Item

namespace StyleTree

-- =========================================================== keywords

namespace QueryKind

variable {text rest : Text} {kind : QueryKind}

/-- A keyword ends where the text does, at a blank, or at a bracket. -/
theorem endsKeyword_iff :
    endsKeyword rest = true
      ↔ ∀ c ∈ rest.head?, isBlank c = true ∨ c = '(' := by
  cases rest <;> simp [endsKeyword]

/-- No keyword is the start of another one. -/
theorem isPrefixOf?_keyword (kind other : QueryKind) (rest : Text) :
    other.keyword.isPrefixOf? (kind.keyword ++ rest)
      = if other = kind then some rest else none := by
  cases kind <;> cases other <;> rfl

/-- A keyword is found in front of what ends it, and no other one is. -/
theorem rest?_keyword_append (kind other : QueryKind)
    (h : endsKeyword rest = true) :
    other.rest? (kind.keyword ++ rest)
      = if other = kind then some rest else none := by
  unfold rest?
  rw [isPrefixOf?_keyword]
  split
  · exact Option.filter_some_pos h
  · rfl

/-- A text is split behind the keyword that it starts with, if that ends
there. -/
theorem split?_eq_some_iff : split? text = some (kind, rest)
    ↔ text.trimStart = kind.keyword ++ rest ∧ endsKeyword rest = true := by
  unfold split?
  constructor
  · intro h
    obtain ⟨other, -, hother⟩ := List.exists_of_findSome?_eq_some h
    obtain ⟨behind, hbehind, heq⟩ := Option.map_eq_some_iff.1 hother
    cases heq
    obtain ⟨hcut, hends⟩ := Option.filter_eq_some_iff.1 hbehind
    exact ⟨(List.isPrefixOf?_eq_some_iff_append_eq.1 hcut).symm, hends⟩
  · rintro ⟨htext, hends⟩
    rw [htext]
    cases kind <;> simp [all, rest?_keyword_append _ _ hends]

/-- So a key is split behind its keyword. -/
theorem split?_keyword_append (kind : QueryKind)
    (h : endsKeyword rest = true) :
    split? (kind.keyword ++ rest) = some (kind, rest) := by
  refine split?_eq_some_iff.2 ⟨Text.trimStart_eq_self ?_, h⟩
  cases kind <;> rintro c ⟨⟩ <;> decide

end QueryKind

-- ============================================================ queries

section

variable {key : Text} {query : Query}

/-- A key asks for a query: it is the keyword of the kind and behind it
nothing, a blank or an opening bracket, and what stands there is the condition,
with its blanks collapsed. -/
def Query.IsAskedBy (key : Text) (query : Query) : Prop :=
  ∃ rest, key.trim = query.kind.keyword ++ rest
    ∧ (∀ c ∈ rest.head?, isBlank c = true ∨ c = '(')
    ∧ query.condition = rest.collapseSpaces

theorem Query.IsAskedBy.head?_eq (h : query.IsAskedBy key) :
    key.trim.head? = some '@' := by
  obtain ⟨rest, hkey, -⟩ := h
  rw [hkey]
  cases query.kind <;> rfl

/-- The query that is read from a key is the one that it asks for. -/
theorem Query.ofKey?_trim_eq_some_iff :
    ofKey? key.trim = some query ↔ query.IsAskedBy key := by
  have hstart : key.trim.trimStart = key.trim :=
    Text.trimStart_eq_self (Text.trimmed_trim key).1
  unfold ofKey?
  rw [Option.map_eq_some_iff]
  constructor
  · rintro ⟨⟨kind, rest⟩, hsplit, rfl⟩
    rw [QueryKind.split?_eq_some_iff, hstart] at hsplit
    exact ⟨rest, hsplit.1, QueryKind.endsKeyword_iff.1 hsplit.2, rfl⟩
  · rintro ⟨rest, hkey, hends, hcondition⟩
    refine ⟨(query.kind, rest), QueryKind.split?_eq_some_iff.2
      ⟨hstart.trans hkey, QueryKind.endsKeyword_iff.2 hends⟩, ?_⟩
    show (⟨query.kind, rest.collapseSpaces⟩ : Query) = query
    rw [← hcondition]

end

-- ============================================================== roles

namespace Role

variable {key : Text} {role : Role}

/-- How a key must be written to have a role. -/
def IsOf (key : Text) : Role → Prop
  | .className => key = "className".toList
  | .query asked => asked.IsAskedBy key
  | .self => key.trim = "self".toList
  | .atRule =>
    key.trim.head? = some '@' ∧ ∀ asked : Query, ¬ asked.IsAskedBy key
  | .name written =>
    written = key.trim ∧ key ≠ "className".toList
      ∧ key.trim ≠ "self".toList ∧ key.trim.head? ≠ some '@'

/-- The role that is read passes its own test. The cases are those of reading,
tried one after the other. -/
theorem isOf_ofKey (key : Text) : (ofKey key).IsOf key := by
  unfold ofKey
  split
  · next hclass => exact hclass
  · next hclass =>
    split
    · next hquery => exact Query.ofKey?_trim_eq_some_iff.1 hquery
    · next hquery =>
      split
      · next hself => exact hself
      · next hself =>
        split
        · next hat =>
          refine ⟨hat, fun asked h => ?_⟩
          rw [Query.ofKey?_trim_eq_some_iff.2 h] at hquery
          cases hquery
        · next hat => exact ⟨rfl, hclass, hself, hat⟩

/-- The class name key is found out by its first letter alone. -/
theorem ne_classNameKey (h : key.trim.head? ≠ some 'c') :
    key ≠ classNameKey := by
  rintro rfl
  exact h (by decide)

/-- What does not start with `@` asks for no query. -/
theorem ofKey?_trim_eq_none (h : key.trim.head? ≠ some '@') :
    Query.ofKey? key.trim = none :=
  Option.eq_none_iff_forall_ne_some.2 fun _ hquery =>
    h (Query.ofKey?_trim_eq_some_iff.1 hquery).head?_eq

/-- A key that passes the test of a role passes none of those that are tried
before. -/
theorem ofKey_eq_of_isOf (h : role.IsOf key) : ofKey key = role := by
  -- the roles are tried in the order of the constructors
  unfold ofKey
  cases role with
  | className => exact if_pos h
  | query asked =>
    have hat := Query.IsAskedBy.head?_eq h
    rw [if_neg (ne_classNameKey (by rw [hat]; decide)),
      Query.ofKey?_trim_eq_some_iff.2 h]
  | self =>
    have hself : key.trim = selfKey := h
    rw [if_neg (ne_classNameKey (by rw [hself]; decide)),
      ofKey?_trim_eq_none (by rw [hself]; decide)]
    exact if_pos hself
  | atRule =>
    obtain ⟨hat, hquery⟩ := h
    have hnone : Query.ofKey? key.trim = none :=
      Option.eq_none_iff_forall_ne_some.2 fun asked h =>
        hquery asked (Query.ofKey?_trim_eq_some_iff.1 h)
    have hself : key.trim ≠ selfKey := fun hself => by
      rw [hself] at hat
      exact absurd hat (by decide)
    rw [if_neg (ne_classNameKey (by rw [hat]; decide)), hnone]
    dsimp only
    rw [if_neg hself, if_pos hat]
  | name written =>
    obtain ⟨rfl, hclass, hself, hat⟩ := h
    change key ≠ classNameKey at hclass
    change key.trim ≠ selfKey at hself
    rw [if_neg hclass, ofKey?_trim_eq_none hat]
    dsimp only
    rw [if_neg hself, if_neg hat]

/-- A key has the role whose test it passes, and no other. -/
theorem ofKey_eq_iff : ofKey key = role ↔ role.IsOf key :=
  ⟨fun h => h ▸ isOf_ofKey key, ofKey_eq_of_isOf⟩

end Role

/-- Inside of a bare keyword the conditions are told by their bracket. -/
theorem opensCondition_iff {key : Text} :
    opensCondition key = true ↔ ∃ rest, key.trim = '(' :: rest := by
  unfold opensCondition
  rw [beq_iff_eq, List.head?_eq_some_iff]

end StyleTree
