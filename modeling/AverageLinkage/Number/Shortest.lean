import AverageLinkage.Number.Decimal

/-!
# Shortest decimal digits of a double

The numbers that round to a given double form an interval around it, closed
exactly if the significand is even.  The shortest digits are found on the grids
of multiples of powers of ten, from coarse to fine: the first grid with a point
in the interval decides how many digits are needed, and of the two grid points
next to the double the nearer one is taken.  A tie goes upwards.
-/

namespace AverageLinkage.Shortest

/-- The rounding interval of a positive double.  All three numbers count
multiples of `2 ^ -1076`. -/
structure Interval where
  low : Nat
  value : Nat
  high : Nat
  closed : Bool
  deriving DecidableEq, Repr

def denominator : Nat := 4 * Binary64.scale

/-- The interval reaches half a unit to either side, except that the doubles
below a power of two are twice as dense. -/
def Interval.of (significand exponent : Nat) : Interval :=
  let unit := Nat.pow 2 exponent
  let value := 4 * significand * unit
  { low :=
      if significand = Binary64.hiddenBit ∧ exponent ≠ 0 then value - unit else value - 2 * unit
    value
    high := value + 2 * unit
    closed := significand % 2 == 0 }

/-- The power of ten that bounds a positive quotient from below:
`10 ^ leadingExponent n d ≤ n / d < 10 ^ (leadingExponent n d + 1)`. -/
def leadingExponent (numerator denominator : Nat) : Int :=
  if denominator ≤ numerator then
    (Decimal.digitCount (numerator / denominator) : Int) - 1
  else
    -(Decimal.digitCount ((denominator - 1) / numerator) : Int)

/-- A multiple of `10 ^ position` in the interval and next to its value, given
by the multiplier. -/
def Interval.gridPoint? (interval : Interval) (position : Int) : Option Nat :=
  let up := Nat.pow 10 (-position).toNat
  let step := denominator * Nat.pow 10 position.toNat
  let inside (count : Nat) : Bool :=
    if interval.closed then
      interval.low * up ≤ count * step && count * step ≤ interval.high * up
    else
      interval.low * up < count * step && count * step < interval.high * up
  let below := interval.value * up / step
  let rest := interval.value * up % step
  if inside below && (2 * rest < step || !inside (below + 1)) then some below
  else if inside (below + 1) then some (below + 1)
  else none

/-- Try the grids from `10 ^ position` downwards, `grids` of them. -/
def Interval.search (interval : Interval) : Nat → Int → Nat × Int
  | 0, position => (interval.value * Nat.pow 10 (-position).toNat /
      (denominator * Nat.pow 10 position.toNat), position)
  | grids + 1, position =>
      match interval.gridPoint? position with
      | some count => (count, position)
      | none => interval.search grids (position - 1)

/-- Coefficient and decimal exponent of the shortest digits of the double
`significand * 2 ^ exponent / 2 ^ 1074`, which must not be zero.  Seventeen
digits always suffice. -/
def digits (significand exponent : Nat) : Nat × Int :=
  let interval := Interval.of significand exponent
  interval.search 17 (leadingExponent interval.value denominator)

end AverageLinkage.Shortest
