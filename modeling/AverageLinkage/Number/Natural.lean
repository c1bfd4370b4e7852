/-!
# Natural numbers in text

A natural number is written as decimal digits, optionally after one plus sign.
Leading zeros are allowed, and the value must not exceed a given limit.
-/

namespace AverageLinkage.Natural

def wordLimit : Nat := 0xffffffffffffffff

/-- The number that a list of decimal digits denotes. -/
def ofDigits (digits : List Char) : Nat :=
  digits.foldl (fun value digit => 10 * value + (digit.toNat - '0'.toNat)) 0

def isNumeral (digits : List Char) : Bool :=
  !digits.isEmpty && digits.all Char.isDigit

def dropPlus : List Char → List Char
  | '+' :: rest => rest
  | text => text

def read? (limit : Nat) (text : List Char) : Option Nat :=
  let digits := dropPlus text
  if isNumeral digits && ofDigits digits ≤ limit then some (ofDigits digits) else none

end AverageLinkage.Natural
