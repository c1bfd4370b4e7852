/-!
# Weights

Merging needs little arithmetic: weights are added, multiplied by the share
that a part has in a whole, and compared.  The clustering is stated once for
every type with these operations.  Doubles are what it is run on.
-/

namespace AverageLinkage

class Weight (W : Type) extends Add W, Sub W, Mul W, Zero W, One W, LT W where
  /-- The share of `part` items in `whole` items. -/
  share (part whole : Nat) : W
  decidableLT : DecidableLT W
  /-- Whether a weight lies above all others. -/
  isTop : W → Bool

instance decidableWeightLT (W : Type) [Weight W] : DecidableLT W :=
  Weight.decidableLT

instance weightFloat : Weight Float where
  share part whole := Float.ofNat part / Float.ofNat whole
  decidableLT := inferInstance
  isTop weight := weight == Float.ofBits 0x7ff0000000000000

end AverageLinkage
