/-
Conditional group rules. A key such as `@media (min-width: 40rem)` is a query:
one of three kinds and the text of its condition, with its blanks collapsed. A
condition is a comma list of alternatives, any of which suffices, and it may be
empty (a bare keyword). Where two queries of one kind are nested both must
hold, so their lists are multiplied out, alternative by alternative; queries of
different kinds are not combined, and the inner one stands.
-/
import StyleTree.Text.Nesting

namespace StyleTree

/-- The kinds of conditional group rule. -/
inductive QueryKind where
  | media
  | container
  | supports
  deriving DecidableEq, Repr

/-- A kind of rule and the text of its condition. -/
structure Query where
  kind : QueryKind
  condition : Text
  deriving DecidableEq, Repr

namespace QueryKind

/-- The kinds in the order in which a key is tried for them. -/
def all : List QueryKind := [media, container, supports]

/-- The at-rule keyword. -/
def keyword : QueryKind → Text
  | media => "@media".toList
  | container => "@container".toList
  | supports => "@supports".toList

/-- Whether a keyword ends here, so that what follows is its condition and not
the rest of a longer word. -/
def endsKeyword : Text → Bool
  | [] => true
  | c :: _ => isBlank c || c == '('

/-- What follows the keyword of this kind in a text that starts with it. -/
def rest? (kind : QueryKind) (text : Text) : Option Text :=
  (kind.keyword.isPrefixOf? text).filter endsKeyword

/-- The kind that a key introduces, with the text behind the keyword. -/
def split? (key : Text) : Option (QueryKind × Text) :=
  all.findSome? fun kind =>
    (kind.rest? key.trimStart).map fun rest => (kind, rest)

/-- The kind of conditional rule that a key introduces, if it introduces
one. -/
def ofKey? (key : Text) : Option QueryKind := (split? key).map Prod.fst

end QueryKind

namespace Query

-- =========================================== from and to their text

/-- The query of a kind with a condition that may be written with any
blanks. -/
def ofCondition (kind : QueryKind) (condition : Text) : Query :=
  ⟨kind, condition.collapseSpaces⟩

/-- Reads the key of a conditional rule. -/
def ofKey? (key : Text) : Option Query :=
  (QueryKind.split? key).map fun (kind, rest) => ofCondition kind rest

/-- The query as it is printed. -/
def text (query : Query) : Text :=
  if query.condition.isEmpty then query.kind.keyword
  else query.kind.keyword ++ ' ' :: query.condition

/-- A conditional key in its printed form; any other key stays as it is. -/
def normalizeKey (key : Text) : Text :=
  match ofKey? key with
  | some query => query.text
  | none => key

-- ========================================================== merging

/-- What joins two tests that must both hold. -/
def conjunction : Text := " and ".toList

/-- The name that may lead a container condition, and the rest of it. The first
word is a name unless it has a bracket, which makes it a test, or is the word
`not`, which negates one. -/
def splitContainerName (part : Text) : Option Text × Text :=
  let first := part.takeWhile (!isBlank ·)
  if !first.isEmpty && '(' ∉ first
      && first.map Char.toLower != "not".toList then
    (some first, Text.trim (part.drop first.length))
  else (none, part)

/-- Both of two alternatives. -/
def conjoin (outer inner : Text) : Text := outer ++ conjunction ++ inner

/-- Both of two container alternatives. A name can only lead, so at most one
remains; differently named containers cannot be asked at once, and then the
inner alternative stands. -/
def conjoinContainer (outer inner : Text) : Text :=
  let (outerName, outerRest) := splitContainerName outer
  let (innerName, innerRest) := splitContainerName inner
  let named (name : Text) : Text :=
    match [outerRest, innerRest].filter (!·.isEmpty) with
    | [] => name
    | rests => name ++ ' ' :: conjunction.intercalate rests
  match outerName, innerName with
  | some o, some i => if o = i then named o else inner
  | some o, none => named o
  | none, some i => named i
  | none, none => conjoin outer inner

/-- Both of two alternatives of one kind. -/
def mergePart (kind : QueryKind) (outer inner : Text) : Text :=
  if kind = .container then conjoinContainer outer inner
  else conjoin outer inner

/-- The alternatives of a condition, trimmed. -/
def alternatives (condition : Text) : List Text :=
  (condition.splitTopLevel ',').map Text.trim

/-- The query in force inside `inner` when that stands inside `outer`. -/
def merge (outer inner : Query) : Query :=
  if outer.kind ≠ inner.kind || outer.condition.isEmpty then inner
  else if inner.condition.isEmpty then outer
  else
    let combined := (alternatives outer.condition).flatMap fun o =>
      (alternatives inner.condition).map fun i => mergePart outer.kind o i
    ⟨outer.kind, ", ".toList.intercalate combined⟩

/-- The query in force inside a query, given the one that is in force around
it. -/
def under (query : Query) : Option Query → Query
  | some outer => outer.merge query
  | none => query

/-- Merging on the texts of two keys. An outer key that is no query leaves the
inner key, normalized. -/
def mergeKeys (outer inner : Text) : Text :=
  match ofKey? outer, ofKey? inner with
  | some o, some i => (o.merge i).text
  | _, _ => normalizeKey inner

end Query

end StyleTree
