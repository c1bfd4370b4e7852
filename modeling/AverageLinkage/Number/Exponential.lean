import AverageLinkage.Number.Binary64

/-!
# The exponential function

Platforms differ in the last place of `exp`, so the function is a parameter of
what is computed with it.

`Exponential.rounded` is the one that this library brings along.  It computes in
integers scaled by `2 ^ precision`.  The argument is halved often enough for a
short Taylor sum to be exact to the working precision, the sum is squared as often
again, and for a negative argument the reciprocal is taken.  Only the final
quotient is rounded to a double.
-/

namespace AverageLinkage

/-- An exponential function on doubles. -/
class Exponential where
  exp : Float → Float

namespace Exponential

/-- Bits after the binary point in the working arithmetic. -/
def precision : Nat := 320

/-- How often the argument is halved, and the sum squared. -/
def halvings : Nat := 32

/-- Number of terms of the Taylor sum after the constant one. -/
def terms : Nat := 24

/-- Beyond this magnitude the result is zero or infinite. -/
def argumentLimit : Nat := 746

def one : Nat := Nat.pow 2 precision

/-- `1 + x / k * (1 + x / (k + 1) * (⋯))` with `count` nested factors, by Horner's
rule; `x` and the result are scaled. -/
def horner (x : Nat) : (count k : Nat) → Nat
  | 0, _ => one
  | count + 1, k => one + x * horner x count (k + 1) / (k * one)

def squareTimes : Nat → Nat → Nat
  | 0, value => value
  | count + 1, value => squareTimes count (value * value / one)

/-- The scaled exponential of `numerator / 2 ^ 1074`. -/
def scaledExp (numerator : Nat) : Nat :=
  squareTimes halvings
    (horner (numerator * one / (Binary64.scale * Nat.pow 2 halvings)) terms 1)

/-- The exponential of a double, rounded to the nearest double. -/
def roundedExp (value : Float) : Float :=
  match Binary64.parts value with
  | .nan => Binary64.nan
  | .infinite negative =>
      if negative then Binary64.signed false 0 else Binary64.infinity false
  | .finite negative significand exponent =>
      let numerator := significand * Nat.pow 2 exponent
      if argumentLimit * Binary64.scale ≤ numerator then
        if negative then Binary64.signed false 0 else Binary64.infinity false
      else if negative then Binary64.nearest false one (scaledExp numerator)
      else Binary64.nearest false (scaledExp numerator) one

instance rounded : Exponential where
  exp := roundedExp

end Exponential

end AverageLinkage
