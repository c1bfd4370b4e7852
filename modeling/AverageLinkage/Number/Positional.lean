import AverageLinkage.Number.Shortest

/-!
# Writing doubles

A double is written with its shortest digits in positional form, never with an
exponent and without a fraction part that is zero.  Negative zero keeps its
sign; the other special values are `inf`, `-inf` and `NaN`.
-/

namespace AverageLinkage.Positional

/-- The digits of `coefficient * 10 ^ -places` with a point before the last
`places` of them.  Zeros at the end of the fraction are dropped, and the point
with them if nothing is left. -/
def withPoint (coefficient places : Nat) : List Char :=
  let digits := Nat.toDigits 10 coefficient
  let padded := List.replicate (places + 1 - digits.length) '0' ++ digits
  let whole := padded.take (padded.length - places)
  let fraction := padded.drop (padded.length - places)
  let kept := (fraction.reverse.dropWhile (· == '0')).reverse
  if kept.isEmpty then whole else whole ++ '.' :: kept

/-- The text of `coefficient * 10 ^ exponent`. -/
def ofDecimal (coefficient : Nat) (exponent : Int) : List Char :=
  withPoint (coefficient * Nat.pow 10 exponent.toNat) (-exponent).toNat

def minus (negative : Bool) (text : List Char) : List Char :=
  if negative then '-' :: text else text

def ofParts : Binary64.Parts → List Char
  | .nan => "NaN".toList
  | .infinite negative => minus negative "inf".toList
  | .finite negative significand exponent =>
      if significand = 0 then minus negative ['0']
      else
        let (coefficient, position) := Shortest.digits significand exponent
        minus negative (ofDecimal coefficient position)

def chars (value : Float) : List Char :=
  ofParts (Binary64.parts value)

def text (value : Float) : String :=
  String.ofList (chars value)

end AverageLinkage.Positional
