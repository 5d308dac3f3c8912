/-
The lexemes of a JSON text. Blanks between lexemes are the four that the format
allows. A string is read by its own scan, which checks every escape; any other
lexeme is either one of six punctuation marks or a run of characters up to the
next mark, blank or quote, and such a run must be a literal name or a number.
Reading stops with nothing at the first place that fits no lexeme.
-/
import StyleTree.Json.Document

namespace StyleTree.Json

/-- What the text of a document is made of. A name or number is already the
document it stands for. -/
inductive Lexeme where
  | openArray
  | closeArray
  | openObject
  | closeObject
  | colon
  | comma
  | string (pieces : List Piece)
  | scalar (value : Document)

-- ======================================================= strings

/-- The value of a hexadecimal digit of either case. -/
def hexDigit? (c : Char) : Option Nat :=
  if '0' ≤ c ∧ c ≤ '9' then some (c.toNat - '0'.toNat)
  else if 'a' ≤ c ∧ c ≤ 'f' then some (c.toNat - 'a'.toNat + 10)
  else if 'A' ≤ c ∧ c ≤ 'F' then some (c.toNat - 'A'.toNat + 10)
  else none

/-- The piece that four hexadecimal digits name. -/
def pieceOfHex? (a b c d : Char) : Option Piece := do
  let unit := ((← hexDigit? a) * 16 + (← hexDigit? b)) * 256
    + (← hexDigit? c) * 16 + (← hexDigit? d)
  return if isHighHalf unit || isLowHalf unit then .half unit
    else .char (Char.ofNat unit)

/-- The character that a backslash and this character stand for. -/
def escaped? (c : Char) : Option Char :=
  match c with
  | '"' => some '"'
  | '\\' => some '\\'
  | '/' => some '/'
  | 'b' => some '\x08'
  | 'f' => some '\x0c'
  | 'n' => some '\n'
  | 'r' => some '\r'
  | 't' => some '\t'
  | _ => none

/-- Reads a string from behind its opening quote; gives its pieces and what
follows its closing quote. A control character may only stand in it as an
escape. -/
def stringBody? : Text → Option (List Piece × Text)
  | [] => none
  | '"' :: rest => some ([], rest)
  | '\\' :: 'u' :: a :: b :: c :: d :: rest => do
    let piece ← pieceOfHex? a b c d
    let (pieces, after) ← stringBody? rest
    return (piece :: pieces, after)
  | '\\' :: c :: rest => do
    let escaped ← escaped? c
    let (pieces, after) ← stringBody? rest
    return (.char escaped :: pieces, after)
  | c :: rest =>
    if c.toNat < 0x20 then none
    else do
      let (pieces, after) ← stringBody? rest
      return (.char c :: pieces, after)

/-- A string takes at least its closing quote from the text. -/
theorem length_lt_of_stringBody? {text after : Text} {pieces : List Piece}
    (h : stringBody? text = some (pieces, after)) :
    after.length < text.length := by
  fun_induction stringBody? text generalizing pieces after with
  | case1 => simp at h
  | case2 rest =>
    simp only [Option.some.injEq, Prod.mk.injEq] at h
    simp [← h.2]
  | case3 a b c d rest ih =>
    simp only [Option.bind_eq_bind, Option.bind_eq_some_iff, Prod.exists] at h
    obtain ⟨_, _, pieces', after', hrest, heq⟩ := h
    simp only [Option.pure_def, Option.some.injEq, Prod.mk.injEq] at heq
    obtain ⟨-, rfl⟩ := heq
    have := ih hrest
    simp only [List.length_cons]
    omega
  | case4 c rest _ ih =>
    simp only [Option.bind_eq_bind, Option.bind_eq_some_iff, Prod.exists] at h
    obtain ⟨_, _, pieces', after', hrest, heq⟩ := h
    simp only [Option.pure_def, Option.some.injEq, Prod.mk.injEq] at heq
    obtain ⟨-, rfl⟩ := heq
    have := ih hrest
    simp only [List.length_cons]
    omega
  | case5 => simp at h
  | case6 c rest _ _ _ _ ih =>
    simp only [Option.bind_eq_bind, Option.bind_eq_some_iff, Prod.exists] at h
    obtain ⟨pieces', after', hrest, heq⟩ := h
    simp only [Option.pure_def, Option.some.injEq, Prod.mk.injEq] at heq
    obtain ⟨-, rfl⟩ := heq
    have := ih hrest
    simp only [List.length_cons]
    omega

-- ============================================= names and numbers

/-- The value of a run of decimal digits. -/
def decimalValue (digits : Text) : Nat :=
  digits.foldl (fun n c => 10 * n + (c.toNat - '0'.toNat)) 0

/-- The exponent part of a number, a letter of either case, a sign that may be
missing, and digits; an empty text is the exponent zero. -/
def exponent? : Text → Option Int
  | [] => some 0
  | e :: rest =>
    let (negative, digits) := match rest with
      | '-' :: digits => (true, digits)
      | '+' :: digits => (false, digits)
      | digits => (false, digits)
    if (e == 'e' || e == 'E') && !digits.isEmpty
        && digits.all Char.isDigit then
      some (if negative then -decimalValue digits else decimalValue digits)
    else none

/-- The digits of a fraction and what follows them. A point needs a digit after
it; without a point there is no fraction. -/
def fraction? : Text → Option (Text × Text)
  | '.' :: rest =>
    let (digits, after) := rest.span Char.isDigit
    if digits.isEmpty then none else some (digits, after)
  | rest => some ([], rest)

/-- A number: a sign that may be missing, a whole part without leading zeros,
then a fraction and an exponent, which may be missing too. -/
def number? (text : Text) : Option Number := do
  let (negative, unsigned) := match text with
    | '-' :: rest => (true, rest)
    | rest => (false, rest)
  let (whole, rest) := unsigned.span Char.isDigit
  guard (!whole.isEmpty && (whole.length == 1 || whole.head? != some '0'))
  let (fraction, rest) ← fraction? rest
  let exponent ← exponent? rest
  return ⟨negative, decimalValue (whole ++ fraction),
    exponent - fraction.length⟩

/-- What a run of other characters stands for. -/
def scalar? (word : Text) : Option Document :=
  if word = "null".toList then some .null
  else if word = "true".toList then some (.bool true)
  else if word = "false".toList then some (.bool false)
  else (number? word).map .number

-- ====================================================== lexemes

/-- The blanks that may stand between lexemes. -/
def isGap (c : Char) : Bool := c == ' ' || c == '\t' || c == '\n' || c == '\r'

/-- The lexeme that is this single character. -/
def mark? (c : Char) : Option Lexeme :=
  match c with
  | '[' => some .openArray
  | ']' => some .closeArray
  | '{' => some .openObject
  | '}' => some .closeObject
  | ':' => some .colon
  | ',' => some .comma
  | _ => none

/-- The characters that a name or number ends before. -/
def endsWord (c : Char) : Bool := isGap c || c == '"' || (mark? c).isSome

/-- The lexemes of a text, in order. -/
def lexemes? : Text → Option (List Lexeme)
  | [] => some []
  | c :: rest =>
    if isGap c then lexemes? rest
    else match mark? c with
    | some mark => (lexemes? rest).map (mark :: ·)
    | none =>
      if c == '"' then
        match _h : stringBody? rest with
        | some (pieces, after) => (lexemes? after).map (.string pieces :: ·)
        | none => none
      else do
        let value ← scalar? (c :: rest.takeWhile (!endsWord ·))
        let following ← lexemes? (rest.dropWhile (!endsWord ·))
        return .scalar value :: following
termination_by text => text.length
decreasing_by
  · simp
  · simp
  · have := length_lt_of_stringBody? ‹stringBody? rest = _›
    simp only [List.length_cons]
    omega
  · have := (List.dropWhile_sublist (l := rest) (!endsWord ·)).length_le
    simp only [List.length_cons]
    omega

end StyleTree.Json
