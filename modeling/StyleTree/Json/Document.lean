/-
A JSON document as it is written. Nothing is interpreted yet: an object is its
list of members, repeated keys included; a number is its decimal digits and
power of ten; a string is a list of pieces, because an escape may name half of
a surrogate pair and only a following half makes it a character. So a document
that is well formed but has no value (a lone half, a number beyond the doubles)
is still a document, which matters to readers that skip over parts of one.
-/
import StyleTree.Text.Basic

namespace StyleTree.Json

/-- A piece of a string: a character, or an escaped half of a surrogate
pair. -/
inductive Piece where
  | char (c : Char)
  | half (unit : Nat)
  deriving DecidableEq, Repr

/-- A written number, `± mantissa * 10 ^ exponent`. -/
structure Number where
  negative : Bool
  mantissa : Nat
  exponent : Int
  deriving DecidableEq, Repr

/-- A document, with its objects as lists of members. -/
inductive Document where
  | null
  | bool (flag : Bool)
  | number (value : Number)
  | string (pieces : List Piece)
  | array (items : List Document)
  | object (members : List (List Piece × Document))

-- ======================================================= strings

/-- The code unit of a surrogate pair comes first when it is in this range. -/
def isHighHalf (unit : Nat) : Bool := 0xD800 ≤ unit && unit < 0xDC00

/-- The code unit of a surrogate pair comes second when it is in this range. -/
def isLowHalf (unit : Nat) : Bool := 0xDC00 ≤ unit && unit < 0xE000

/-- The text that the pieces spell; none if a half stands without its other
half. -/
def text? : List Piece → Option Text
  | [] => some []
  | .char c :: rest => (text? rest).map (c :: ·)
  | .half high :: .half low :: rest =>
    if isHighHalf high && isLowHalf low then
      let code := 0x10000 + (high - 0xD800) * 0x400 + (low - 0xDC00)
      (text? rest).map (Char.ofNat code :: ·)
    else none
  | .half _ :: _ => none

-- ======================================================= numbers

/-- The double nearest to the written number; none if it lies beyond the
doubles. A magnitude below `1e-400` or above `1e400` is decided by its count of
digits, so that no power of ten is computed for it. -/
def Number.toFloat? (n : Number) : Option Float :=
  let magnitude : Int := (Nat.toDigits 10 n.mantissa).length + n.exponent
  let value : Float :=
    if n.mantissa = 0 || magnitude < -400 then 0
    else if 400 < magnitude then 1 / 0
    else Float.ofScientific n.mantissa (n.exponent < 0) n.exponent.natAbs
  if value.isInf then none else some (if n.negative then -value else value)

-- ======================================================== depth

mutual

/-- How many arrays and objects stand around the innermost place of a
document. -/
def Document.depth : Document → Nat
  | .array items => 1 + depthOfItems items
  | .object members => 1 + depthOfMembers members
  | _ => 0
termination_by structural document => document

/-- The greatest depth among the items of an array. -/
def depthOfItems : List Document → Nat
  | [] => 0
  | item :: rest => max item.depth (depthOfItems rest)
termination_by structural items => items

/-- The greatest depth among the values of an object. -/
def depthOfMembers : List (List Piece × Document) → Nat
  | [] => 0
  | member :: rest => max (depthOfMember member) (depthOfMembers rest)
termination_by structural members => members

/-- The depth of the value of a member. -/
def depthOfMember : List Piece × Document → Nat
  | (_, value) => value.depth
termination_by structural member => member

end

end StyleTree.Json
