/-
Conditions that ask for tests. The text of such a condition is a comma list of
alternatives; an alternative joins its tests, each in brackets, by ` and `, and
one for containers may be led by a name. `Alternative` is what there is to one
of them, and `Lists` says that a text lists some of them.

# Reading a list

The scans see such a text as it is meant. A test is closed in itself, so the
commas and spaces inside of it are not on the top level (`IsTest.unbroken`).
So the alternatives are what stands between commas (`Lists.alternatives_eq`),
and the tests of one are its words that open with a bracket (`testsOf_text`).
With commas read as "or" and ` and ` as "and", that is what the condition says
(`Holds`).
-/
import StyleTree.Query
import StyleTree.Proofs.Text.CommaList

namespace StyleTree.Query

open Nesting (Along Matched)
open Text (Unbroken)

-- ======================================================= alternatives

/-- A test: a text in brackets that closes all that it opens, and nothing
else. -/
def IsTest (text : Text) : Prop :=
  ∃ inner : Text, text = '(' :: inner ++ [')']
    ∧ Along Matched .top inner ∧ Nesting.top.scan inner = .top

/-- A word: no blank, comma, quote or bracket is in it. -/
def IsWord (text : Text) : Prop :=
  text ≠ [] ∧ ∀ c ∈ text, isBlank c = false ∧ c ≠ ','
    ∧ Nesting.isStructural c = false

/-- A container name. The word `not` is none, however it is spelled. -/
def IsName (text : Text) : Prop :=
  IsWord text ∧ text.map Char.toLower ≠ "not".toList

/-- An alternative: the name that leads it, if one does, and its tests. -/
structure Alternative where
  name : Option Text
  tests : List Text
  deriving DecidableEq, Repr

namespace Alternative

/-- The alternative as it is written. -/
def text : Alternative → Text
  | ⟨none, tests⟩ => conjunction.intercalate tests
  | ⟨some name, []⟩ => name
  | ⟨some name, tests⟩ => name ++ ' ' :: conjunction.intercalate tests

/-- Only a container has a name, and what has none has a test. -/
structure WellFormed (kind : QueryKind) (a : Alternative) : Prop where
  named : ∀ name ∈ a.name, kind = .container ∧ IsName name
  tested : ∀ test ∈ a.tests, IsTest test
  asks : a.name = none → a.tests ≠ []

end Alternative

instance (text : Text) : Decidable (IsTest text) :=
  decidable_of_iff (text = '(' :: text.tail.dropLast ++ [')']
      ∧ Along Matched .top text.tail.dropLast
      ∧ Nesting.top.scan text.tail.dropLast = .top)
    ⟨fun h => ⟨_, h⟩, by rintro ⟨inner, rfl, h⟩; simpa using h⟩

instance (text : Text) : Decidable (IsWord text) :=
  @instDecidableAnd _ _ inferInstance (List.decidableBAll _ text)

instance (text : Text) : Decidable (IsName text) :=
  inferInstanceAs (Decidable (_ ∧ _))

instance (kind : QueryKind) (a : Alternative) :
    Decidable (a.WellFormed kind) :=
  decidable_of_iff ((∀ name ∈ a.name, kind = .container ∧ IsName name)
      ∧ (∀ test ∈ a.tests, IsTest test) ∧ (a.name = none → a.tests ≠ []))
    ⟨fun ⟨hnamed, htested, hasks⟩ => ⟨hnamed, htested, hasks⟩,
      fun h => ⟨h.named, h.tested, h.asks⟩⟩

/-- A part of a list, which may have blanks around it. -/
def IsPart (kind : QueryKind) (part : Text) (a : Alternative) : Prop :=
  part.trim = a.text ∧ a.WellFormed kind

instance (kind : QueryKind) (part : Text) (a : Alternative) :
    Decidable (IsPart kind part a) :=
  inferInstanceAs (Decidable (_ ∧ _))

/-- The text of a condition lists alternatives of its kind. -/
inductive Lists (kind : QueryKind) : Text → List Alternative → Prop
  | last {part : Text} {a : Alternative} (hpart : IsPart kind part a) :
    Lists kind part [a]
  | cons {part rest : Text} {a : Alternative} {as : List Alternative}
      (hpart : IsPart kind part a) (hrest : Lists kind rest as) :
    Lists kind (part ++ ',' :: rest) (a :: as)

-- ============================================================ words

variable {kind : QueryKind} {text part condition : Text} {a : Alternative}
  {as : List Alternative}

/-- A word has no separator in it. -/
theorem IsWord.unbroken (h : IsWord text) {separator : Char}
    (hseparator : separator = ',' ∨ separator = ' ') :
    Unbroken separator text := by
  apply Text.unbroken_of_plain
  intro c hc
  obtain ⟨hblank, hcomma, hplain⟩ := h.2 c hc
  refine ⟨?_, hplain⟩
  rcases hseparator with rfl | rfl
  · exact hcomma
  · rintro rfl
    exact absurd hblank (by decide)

theorem IsWord.trimmed (h : IsWord text) : text.Trimmed :=
  ⟨fun c hc => (h.2 c (List.mem_of_mem_head? hc)).1,
    fun c hc => (h.2 c (List.mem_of_mem_getLast? hc)).1⟩

/-- Inside of the brackets of a test no cut is made. -/
theorem IsTest.unbroken (h : IsTest text) (separator : Char) :
    Unbroken separator text := by
  obtain ⟨inner, rfl, hmatched, hends⟩ := h
  have hinner : (Nesting.top.raise 1).scan inner = Nesting.top.raise 1 := by
    rw [Nesting.scan_raise 1 hmatched, hends]
  have hraised (state : Nesting) (c : Char) :
      Text.Uncut (· == separator) (state.raise 1) c := by
    simp [Text.Uncut, Nesting.cutsAt, Nesting.raise, Nesting.top]
  have hopen : Text.Uncut (· == separator) .top '(' := by
    simp [Text.Uncut, Nesting.cutsAt, Nesting.isStructural, Nesting.isOpening]
  have huncut :
      Along (Text.Uncut (· == separator)) (Nesting.top.raise 1) inner :=
    hmatched.raise 1 hmatched fun state c _ => hraised state c
  constructor
  · refine ⟨hopen, ?_⟩
    show Along _ (Nesting.top.raise 1) (inner ++ [')'])
    rw [Nesting.along_append, hinner]
    exact ⟨huncut, hraised .top ')', trivial⟩
  · show (Nesting.top.raise 1).scan (inner ++ [')']) = .top
    rw [Nesting.scan_append, hinner]
    rfl

theorem IsTest.head? (h : IsTest text) : text.head? = some '(' := by
  obtain ⟨inner, rfl, -⟩ := h
  rfl

theorem IsTest.ne_nil (h : IsTest text) : text ≠ [] := by
  obtain ⟨inner, rfl, -⟩ := h
  exact List.cons_ne_nil _ _

theorem IsTest.trimmed (h : IsTest text) : text.Trimmed := by
  obtain ⟨inner, rfl, -⟩ := h
  constructor
  · intro c hc
    cases hc
    decide
  · intro c hc
    rw [List.getLast?_concat] at hc
    cases hc
    decide

-- A word of a condition is a test or a plain word, and either stays whole.

/-- No word of an alternative has blanks around it. -/
theorem trimmed_of_word (h : IsTest text ∨ IsWord text) :
    text.Trimmed ∧ text ≠ [] := by
  rcases h with htest | hplain
  · exact ⟨htest.trimmed, htest.ne_nil⟩
  · exact ⟨hplain.trimmed, hplain.1⟩

/-- No word of an alternative is cut, neither at commas nor at blanks. -/
theorem unbroken_of_word (h : IsTest text ∨ IsWord text) {separator : Char}
    (hseparator : separator = ',' ∨ separator = ' ') :
    Unbroken separator text := by
  rcases h with htest | hplain
  · exact htest.unbroken separator
  · exact hplain.unbroken hseparator

/-- Words with single spaces between them have no blanks around them. -/
theorem trimmed_words {words : List Text}
    (h : ∀ word ∈ words, IsTest word ∨ IsWord word) :
    Text.Trimmed ([' '].intercalate words) :=
  Text.trimmed_intercalate _ fun word hword => trimmed_of_word (h word hword)

/-- No comma of some words is on the top level. -/
theorem unbroken_words {words : List Text}
    (h : ∀ word ∈ words, IsTest word ∨ IsWord word) :
    Unbroken ',' ([' '].intercalate words) := by
  apply Nesting.along_top_intercalate
  · exact Text.unbroken_comma_of_blank (List.forall_mem_singleton.2 rfl)
  · intro word hword
    exact unbroken_of_word (h word hword) (.inl rfl)

/-- The words are what stands between the spaces. -/
theorem splitTopLevel_words {words : List Text} (hne : words ≠ [])
    (h : ∀ word ∈ words, IsTest word ∨ IsWord word) :
    Text.splitTopLevel ' ' ([' '].intercalate words) = words := by
  apply Text.splitTopLevel_intercalate (by decide) hne
  intro word hword
  exact unbroken_of_word (h word hword) (.inr rfl)

/-- The word between two tests. -/
def andWord : Text := "and".toList

/-- Tests with the words between them. -/
def chain (tests : List Text) : List Text := tests.intersperse andWord

theorem chain_cons_cons (test next : Text) (rest : List Text) :
    chain (test :: next :: rest) = test :: andWord :: chain (next :: rest) :=
  List.intersperse_cons_cons

theorem chain_ne_nil (test : Text) (rest : List Text) :
    chain (test :: rest) ≠ [] := by
  cases rest with
  | nil => exact List.cons_ne_nil _ _
  | cons next rest =>
    rw [chain_cons_cons]
    exact List.cons_ne_nil _ _

/-- The words of a chain are the tests and `and`. -/
theorem mem_chain {word : Text} {tests : List Text} (h : word ∈ chain tests) :
    word ∈ tests ∨ word = andWord := by
  induction tests with
  | nil => exact absurd h List.not_mem_nil
  | cons test rest ih =>
    cases rest with
    | nil => exact .inl h
    | cons next rest =>
      rw [chain_cons_cons] at h
      rcases List.mem_cons.1 h with rfl | h
      · exact .inl (List.mem_cons_self ..)
      · rcases List.mem_cons.1 h with rfl | h
        · exact .inr rfl
        · exact (ih h).imp_left (List.mem_cons_of_mem _)

/-- A chain of tests is written as the tests joined by `and`. -/
theorem intercalate_chain (tests : List Text) :
    [' '].intercalate (chain tests) = conjunction.intercalate tests := by
  induction tests with
  | nil => rfl
  | cons test rest ih =>
    cases rest with
    | nil => rfl
    | cons next rest =>
      rw [chain_cons_cons, List.intercalate_cons_cons,
        Text.intercalate_cons_of_ne_nil (chain_ne_nil next rest), ih,
        List.intercalate_cons_cons]
      simp [conjunction, andWord]

namespace Alternative

/-- The words of an alternative. -/
def words (a : Alternative) : List Text := a.name.toList ++ chain a.tests

/-- An alternative is written word by word. -/
theorem text_eq_intercalate (a : Alternative) :
    a.text = [' '].intercalate a.words := by
  obtain ⟨_ | name, tests⟩ := a
  · exact (intercalate_chain tests).symm
  · cases tests with
    | nil => exact List.intercalate_singleton.symm
    | cons test rest =>
      show name ++ ' ' :: conjunction.intercalate (test :: rest)
        = [' '].intercalate (name :: chain (test :: rest))
      rw [Text.intercalate_cons_of_ne_nil (chain_ne_nil test rest),
        intercalate_chain, List.append_assoc]
      rfl

namespace WellFormed

variable (h : a.WellFormed kind)

include h

theorem words_ne_nil : a.words ≠ [] := by
  obtain ⟨_ | name, tests⟩ := a
  · obtain ⟨test, rest, rfl⟩ := List.exists_cons_of_ne_nil (h.asks rfl)
    exact chain_ne_nil test rest
  · exact List.cons_ne_nil _ _

/-- A word of an alternative is a test, or a plain word. -/
theorem of_mem_words {word : Text} (hword : word ∈ a.words) :
    IsTest word ∨ IsWord word := by
  rcases List.mem_append.1 hword with hname | hchain
  · exact .inr (h.named word (Option.mem_toList.1 hname)).2.1
  · rcases mem_chain hchain with htest | rfl
    · exact .inl (h.tested word htest)
    · exact .inr (by decide)

/-- The text of an alternative has no blanks around it. -/
theorem text_trimmed : a.text.Trimmed := by
  rw [text_eq_intercalate]
  exact trimmed_words fun _ => h.of_mem_words

theorem text_ne_nil : a.text ≠ [] := by
  obtain ⟨word, rest, hwords⟩ := List.exists_cons_of_ne_nil h.words_ne_nil
  have hword : word ∈ a.words := hwords ▸ List.mem_cons_self ..
  rw [text_eq_intercalate, hwords]
  exact Text.intercalate_cons_ne_nil
    (trimmed_of_word (h.of_mem_words hword)).2 _ _

/-- No comma of an alternative is on the top level. -/
theorem text_unbroken : Unbroken ',' a.text := by
  rw [text_eq_intercalate]
  exact unbroken_words fun _ => h.of_mem_words

/-- The words of an alternative are what stands between its spaces. -/
theorem splitTopLevel_text : a.text.splitTopLevel ' ' = a.words := by
  rw [text_eq_intercalate]
  exact splitTopLevel_words h.words_ne_nil fun _ => h.of_mem_words

end WellFormed

end Alternative

-- =========================================================== lists

/-- A part of a list is in one part. -/
theorem IsPart.unbroken (h : IsPart kind part a) : Unbroken ',' part := by
  apply Text.unbroken_of_trim
  rw [h.1]
  exact h.2.text_unbroken

/-- The alternatives of a list are what stands between its commas. -/
theorem Lists.alternatives_eq (h : Lists kind condition as) :
    alternatives condition = as.map Alternative.text := by
  unfold alternatives
  induction h with
  | last hpart =>
    rw [Text.splitTopLevel, Text.splitFrom_eq_singleton hpart.unbroken.1]
    show [_] = [_]
    rw [hpart.1]
  | cons hpart _ ih =>
    rw [hpart.unbroken.splitTopLevel_append_cons (by decide), List.map_cons,
      List.map_cons, ih, hpart.1]

/-- A condition lists well-formed alternatives. -/
theorem Lists.wellFormed (h : Lists kind condition as) :
    ∀ a ∈ as, a.WellFormed kind := by
  induction h with
  | last hpart => exact List.forall_mem_singleton.2 hpart.2
  | cons hpart _ ih => exact List.forall_mem_cons.2 ⟨hpart.2, ih⟩

theorem Lists.ne_nil (h : Lists kind condition as) : condition ≠ [] := by
  cases h with
  | last hpart =>
    rintro rfl
    exact hpart.2.text_ne_nil hpart.1.symm
  | cons => simp

/-- A list may have a blank in front of it. -/
theorem Lists.cons_blank {c : Char} (hc : isBlank c = true)
    (h : Lists kind condition as) : Lists kind (c :: condition) as := by
  cases h with
  | last hpart =>
    exact .last ⟨by rw [Text.trim_cons_blank hc, hpart.1], hpart.2⟩
  | @cons part rest a as hpart hrest =>
    have hblank : IsPart kind (c :: part) a :=
      ⟨by rw [Text.trim_cons_blank hc, hpart.1], hpart.2⟩
    exact .cons hblank hrest

/-- Alternatives that are joined are listed. -/
theorem lists_intercalate (hne : as ≠ []) (h : ∀ a ∈ as, a.WellFormed kind) :
    Lists kind (", ".toList.intercalate (as.map Alternative.text)) as := by
  induction as with
  | nil => exact absurd rfl hne
  | cons a rest ih =>
    obtain ⟨ha, hrest⟩ := List.forall_mem_cons.1 h
    have hpart : IsPart kind a.text a :=
      ⟨Text.trim_eq_self_iff.2 ha.text_trimmed, ha⟩
    cases rest with
    | nil =>
      rw [List.map_singleton, List.intercalate_singleton]
      exact .last hpart
    | cons next rest =>
      rw [List.map_cons, Text.intercalate_cons_of_ne_nil (by simp),
        List.append_assoc]
      exact .cons hpart
        ((ih (List.cons_ne_nil next rest) hrest).cons_blank rfl)

-- =========================================================== meaning

/-- The tests of an alternative: its words that open with a bracket. -/
def testsOf (part : Text) : List Text :=
  (part.splitTopLevel ' ').filter fun word => word.head? = some '('

/-- What a condition says, for a given truth of the tests: all tests hold of
one of its alternatives. -/
def Holds (v : Text → Prop) (condition : Text) : Prop :=
  ∃ part ∈ alternatives condition, ∀ test ∈ testsOf part, v test

/-- The words of a chain that start with a bracket are its tests. -/
theorem filter_chain {tests : List Text} (h : ∀ test ∈ tests, IsTest test) :
    (chain tests).filter (fun word => word.head? = some '(') = tests := by
  induction tests with
  | nil => rfl
  | cons test rest ih =>
    obtain ⟨htest, hrest⟩ := List.forall_mem_cons.1 h
    have hkeep := htest.head?
    cases rest with
    | nil => simp [chain, hkeep]
    | cons next rest =>
      rw [chain_cons_cons, List.filter_cons_of_pos (by simpa using hkeep),
        List.filter_cons_of_neg (by decide), ih hrest]

/-- The tests of an alternative are found again in its text. -/
theorem testsOf_text (h : a.WellFormed kind) : testsOf a.text = a.tests := by
  have hname : a.name.toList.filter (fun word => word.head? = some '(')
      = [] := by
    rw [List.filter_eq_nil_iff]
    intro name hname hbracket
    have hword := (h.named name (Option.mem_toList.1 hname)).2.1
    have hplain :=
      hword.2 '(' (List.mem_of_mem_head? (by simpa using hbracket))
    exact absurd hplain.2.2 (by decide)
  unfold testsOf
  rw [h.splitTopLevel_text, Alternative.words, List.filter_append, hname,
    filter_chain h.tested]
  rfl

/-- A list holds exactly if the tests of one of its alternatives do. -/
theorem Lists.holds_iff (h : Lists kind condition as) (v : Text → Prop) :
    Holds v condition ↔ ∃ a ∈ as, ∀ test ∈ a.tests, v test := by
  unfold Holds
  rw [h.alternatives_eq]
  constructor
  · rintro ⟨part, hpart, hv⟩
    obtain ⟨a, ha, rfl⟩ := List.mem_map.1 hpart
    rw [testsOf_text (h.wellFormed a ha)] at hv
    exact ⟨a, ha, hv⟩
  · rintro ⟨a, ha, hv⟩
    refine ⟨a.text, List.mem_map_of_mem ha, ?_⟩
    rwa [testsOf_text (h.wellFormed a ha)]

end StyleTree.Query
