import AverageLinkage.Number.Natural
import AverageLinkage.Number.Binary64

/-!
# Reading doubles

A numeral is an optional sign followed by one of

* the word `inf`, `infinity` or `nan` in any ASCII case;
* decimal digits with an optional point, at least one digit in all, and an
  optional exponent: `e` or `E`, an optional sign, at least one digit.

Its value is the double nearest to the number it denotes.  Numbers beyond the
largest double become infinite, and numbers below half the smallest one become
zero; both keep their sign.
-/

namespace AverageLinkage.Decimal

/-- What a numeral denotes: `coefficient * 10 ^ exponent` if it is finite. -/
inductive Numeral where
  | nan
  | infinite (negative : Bool)
  | finite (negative : Bool) (coefficient : Nat) (exponent : Int)
  deriving DecidableEq, Repr

/-- Split an optional sign off; the flag tells a minus sign. -/
def splitSign : List Char → Bool × List Char
  | '-' :: rest => (true, rest)
  | '+' :: rest => (false, rest)
  | text => (false, text)

def readExponent? : List Char → Option Int
  | [] => some 0
  | mark :: rest =>
      let (negative, digits) := splitSign rest
      if (mark = 'e' || mark = 'E') && Natural.isNumeral digits then
        let size : Int := Natural.ofDigits digits
        some (if negative then -size else size)
      else none

/-- Read digits with an optional point and an optional exponent. -/
def readUnsigned? (negative : Bool) (text : List Char) : Option Numeral := do
  let whole := text.takeWhile Char.isDigit
  let rest := text.dropWhile Char.isDigit
  let (fraction, rest) := match rest with
    | '.' :: tail => (tail.takeWhile Char.isDigit, tail.dropWhile Char.isDigit)
    | _ => ([], rest)
  if whole.isEmpty && fraction.isEmpty then none
  else
    let exponent ← readExponent? rest
    return .finite negative (Natural.ofDigits (whole ++ fraction))
      (exponent - fraction.length)

def readNumeral? (text : List Char) : Option Numeral :=
  let (negative, body) := splitSign text
  let word := body.map Char.toLower
  if word = "nan".toList then some .nan
  else if word = "inf".toList || word = "infinity".toList then some (.infinite negative)
  else readUnsigned? negative body

/-- Every positive number of at least `10 ^ 310` is read as infinity. -/
def hugeExponent : Int := 310

/-- Every positive number below `10 ^ -325` is read as zero. -/
def tinyExponent : Int := -325

/-- Number of decimal digits; one for zero. -/
def digitCount (value : Nat) : Nat :=
  (Nat.toDigits 10 value).length

/-- The double nearest to `coefficient * 10 ^ exponent`.  The powers of ten are
formed only where the result is not settled by the number of digits. -/
def Numeral.toFloat : Numeral → Float
  | .nan => Binary64.nan
  | .infinite negative => Binary64.infinity negative
  | .finite negative coefficient exponent =>
      if coefficient = 0 then Binary64.signed negative 0
      else if hugeExponent < exponent + digitCount coefficient then
        Binary64.infinity negative
      else if exponent + digitCount coefficient ≤ tinyExponent then
        Binary64.signed negative 0
      else Binary64.nearest negative
        (coefficient * Nat.pow 10 exponent.toNat) (Nat.pow 10 (-exponent).toNat)

def read? (text : List Char) : Option Float :=
  (readNumeral? text).map Numeral.toFloat

end AverageLinkage.Decimal
