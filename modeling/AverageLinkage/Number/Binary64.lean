/-!
# Doubles as integers

Every finite double is `significand * 2 ^ exponent / 2 ^ 1074` for natural
numbers `significand < 2 ^ 53` and `exponent ≤ 2045`.  This module takes a
`Float` apart into these numbers and, in the other direction, rounds a quotient
of natural numbers to the nearest double, with ties going to the even
significand.  All arithmetic is exact.
-/

namespace AverageLinkage.Binary64

/-- Finite doubles are multiples of `1 / scale`, that is of `2 ^ -1074`. -/
def scale : Nat := Nat.pow 2 1074

/-- The bit `2 ^ 52` of a significand, which the bit pattern leaves out. -/
def hiddenBit : Nat := 0x10000000000000

def infinityBits : Nat := 0x7ff0000000000000

/-- The bit `2 ^ 63`, which is set in the patterns of negative doubles. -/
def signBit : Nat := 0x8000000000000000

inductive Parts where
  | nan
  | infinite (negative : Bool)
  | finite (negative : Bool) (significand exponent : Nat)
  deriving DecidableEq, Repr

def Parts.ofBits (bits : Nat) : Parts :=
  let negative := bits / signBit % 2 == 1
  let field := bits / hiddenBit % 2048
  let fraction := bits % hiddenBit
  if field = 2047 then
    if fraction = 0 then .infinite negative else .nan
  else if field = 0 then .finite negative fraction 0
  else .finite negative (hiddenBit + fraction) (field - 1)

def parts (value : Float) : Parts :=
  Parts.ofBits value.toBits.toNat

/-- The integer nearest to `numerator / denominator`; a tie goes to the even
neighbour. -/
def roundQuotient (numerator denominator : Nat) : Nat :=
  let floor := numerator / denominator
  let remainder := numerator % denominator
  if 2 * remainder < denominator then floor
  else if denominator < 2 * remainder then floor + 1
  else floor + floor % 2

/-- Bit pattern of the nonnegative double nearest to `numerator / denominator`.
The exponent is the least one for which the significand has at most 53 bits; a
significand that rounds up to `2 ^ 53` carries into the exponent field. -/
def nearestBits (numerator denominator : Nat) : Nat :=
  let scaled := numerator * scale
  let exponent := (scaled / denominator).log2 - 52
  min infinityBits
    (exponent * hiddenBit + roundQuotient scaled (denominator * Nat.pow 2 exponent))

/-- Attach a sign to the bit pattern of a nonnegative double. -/
def signed (negative : Bool) (bits : Nat) : Float :=
  Float.ofBits (UInt64.ofNat (if negative then signBit + bits else bits))

/-- The double nearest to `numerator / denominator`, or to its negation. -/
def nearest (negative : Bool) (numerator denominator : Nat) : Float :=
  signed negative (nearestBits numerator denominator)

def infinity (negative : Bool) : Float :=
  signed negative infinityBits

def nan : Float := Float.ofBits 0x7ff8000000000000

end AverageLinkage.Binary64
