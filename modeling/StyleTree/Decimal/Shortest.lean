/-
The decimal that names a binary number. A double stands for all reals that
round to it, an interval around its exact value. Among the multiples of a power
of ten that lie in this interval we want one with the fewest digits, that is
one on the coarsest grid `10 ^ k`, and on that grid the one nearest to the
exact value; of two equally near ones the larger. Everything is decided in
natural numbers: the interval is scaled until its ends, its middle and the grid
are whole.
-/
namespace StyleTree

/-- A positive decimal number: `digits * 10 ^ exponent`. -/
structure Decimal where
  digits : Nat
  exponent : Int
  deriving DecidableEq, Repr

/-- A positive binary number `mantissa * 2 ^ exponent` among its neighbours of
the same format. At a power of two the neighbour below is only half as far away
as the one above; `closeBelow` says so. -/
structure Dyadic where
  mantissa : Nat
  exponent : Int
  closeBelow : Bool
  deriving DecidableEq, Repr

namespace Dyadic

/-- The magnitude of a finite double, read off its 64 bits: 52 bits of fraction
below 11 bits of exponent. The least exponent marks the numbers whose leading
bit is not implied. -/
def ofBits (bits : Nat) : Dyadic :=
  let fraction : Nat := bits % Nat.pow 2 52
  let exponent : Nat := bits / Nat.pow 2 52 % Nat.pow 2 11
  if exponent = 0 then ⟨fraction, -1074, false⟩
  else ⟨Nat.pow 2 52 + fraction, (exponent : Int) - 1075,
    decide (fraction = 0 ∧ 1 < exponent)⟩

/-- The multiple of `10 ^ k`, as a factor, that lies in the interval of reals
which round to the number: the nearest one if there are several, and the larger
of two that are equally near. The ends of the interval belong to it when the
mantissa is even, because a tie rounds to the even neighbour. A quarter of the
last binary place is the unit, so that the half and the quarter distances to
the neighbours are whole. -/
def onGrid? (x : Dyadic) (k : Int) : Option Nat :=
  let unit := Nat.pow 2 (x.exponent - 2).toNat * Nat.pow 10 (-k).toNat
  let step := Nat.pow 2 (2 - x.exponent).toNat * Nat.pow 10 k.toNat
  let value := 4 * x.mantissa * unit
  let low := (4 * x.mantissa - (if x.closeBelow then 1 else 2)) * unit
  let high := (4 * x.mantissa + 2) * unit
  let within (n : Nat) : Bool :=
    if x.mantissa % 2 = 0 then low ≤ n * step && n * step ≤ high
    else low < n * step && n * step < high
  let below := value / step
  if within below
      && (!within (below + 1) || 2 * (value - below * step) < step) then
    some below
  else if within (below + 1) then some (below + 1)
  else none

/-- The first hit when `count` grids are tried from `10 ^ k` downwards. -/
def coarsest? (x : Dyadic) : Nat → Int → Option Decimal
  | 0, _ => none
  | count + 1, k =>
    match x.onGrid? k with
    | some digits => some ⟨digits, k⟩
    | none => coarsest? x count (k - 1)

/-- A power of ten above the number: its place in binary times the decimal
logarithm of two, rounded up. -/
def gridAbove (x : Dyadic) : Int :=
  (x.exponent + (x.mantissa.log2 : Int) + 2) * 30103 / 100000 + 1

/-- The shortest decimal that rounds to the number. A double needs at most
seventeen digits, so the search from above its magnitude has long ended before
the grids run out. -/
def shortest (x : Dyadic) : Decimal :=
  (x.coarsest? 400 x.gridAbove).getD ⟨0, 0⟩

end Dyadic

namespace Decimal

/-- The number in positional notation, however long that gets: no exponent is
ever written, a number below one has one zero before the point, and a whole
number has no point. -/
def text (d : Decimal) : List Char :=
  let digits := Nat.toDigits 10 d.digits
  if 0 ≤ d.exponent then digits ++ List.replicate d.exponent.toNat '0'
  else
    let places := (-d.exponent).toNat
    let padded := List.replicate (places + 1 - digits.length) '0' ++ digits
    padded.take (padded.length - places)
      ++ '.' :: padded.drop (padded.length - places)

end Decimal

/-- A double in positional notation with the fewest digits that read back. Zero
has no sign, and what is not finite is written as a word. -/
def numberText (x : Float) : List Char :=
  if x == 0 then ['0']
  else if x.isNaN then "NaN".toList
  else
    let magnitude :=
      if x.isInf then "inf".toList
      else (Dyadic.ofBits x.toBits.toNat).shortest.text
    if x < 0 then '-' :: magnitude else magnitude

example : (Dyadic.ofBits 1).shortest = ⟨5, -324⟩ := by decide +kernel

example : Decimal.text ⟨15, -1⟩ = "1.5".toList := by decide +kernel

example : Decimal.text ⟨1, 3⟩ = "1000".toList := by decide +kernel

example : Decimal.text ⟨1, -3⟩ = "0.001".toList := by decide +kernel

end StyleTree
