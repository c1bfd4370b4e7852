import Mathlib
import AverageLinkage.Kernel
import AverageLinkage.Proofs.GraphRoundTrip

/-!
# Affinities are finite

The argument of the exponential in an affinity is a number with a minus sign: it is the
negated square of a finite distance, divided by a positive variance.  If the exponential of
such numbers is finite, all edges of an affinity graph are sound.  The rounded exponential has
this property, since its values there are at most one.
-/

namespace AverageLinkage

namespace Binary64

open Float.Model (Format UnpackedFloat)
open Float.Model.UnpackedFloat

/-! ## Signs -/

def unpackedSign? : UnpackedFloat → Option Sign
  | .notANumber => none
  | .infinity sign => some sign
  | .zero sign => some sign
  | .finite sign _ _ _ => some sign

def sign? (value : Float) : Option Sign :=
  unpackedSign? value.toModel.unpack

/-- Rounding keeps the sign, also of a result that is zero or infinite. -/
theorem unpackedSign?_roundWithAccuracy (sign : Sign) (mantissa : Nat) (exponent : Int)
    (accuracy : Accuracy) :
    unpackedSign? (roundWithAccuracy Format.binary64 sign mantissa exponent accuracy) =
      some sign := by
  simp only [roundWithAccuracy]
  split <;> rfl

theorem toNat_unpackSign (bits : BitVec Format.binary64.numBits) :
    (unpackSign bits).toNat = bits.toNat / signBit % 2 := by
  simp [unpackSign, signBit, Nat.shiftRight_eq_div_pow]

theorem unpackSign_packComponents (sign : Sign) (exponent : BitVec Format.binary64.exponentBits)
    (mantissa : BitVec Format.binary64.mantissaBitsWithoutImplicit) :
    Sign.ofBitVec (unpackSign (packComponents Format.binary64 sign exponent mantissa)) = sign := by
  have hsign : unpackSign (packComponents Format.binary64 sign exponent mantissa) =
      sign.toBitVec := by
    ext index hindex
    simp only [unpackSign, packComponents, BitVec.extractLsb]
    grind
  rw [hsign]
  cases sign <;> rfl

/-- A number keeps its sign through the bit pattern. -/
theorem unpackedSign?_packComponents (sign : Sign) {exponent : BitVec Format.binary64.exponentBits}
    {mantissa : BitVec Format.binary64.mantissaBitsWithoutImplicit}
    (hnumber : exponent = -1#_ → mantissa = 0#_) :
    unpackedSign? (unpack Format.binary64
      (packComponents Format.binary64 sign exponent mantissa)) = some sign := by
  simp only [unpack, unpackExponent_packComponents, unpackMantissa_packComponents,
    unpackSign_packComponents]
  split
  · next hfull =>
      rw [if_pos (hnumber hfull)]
      rfl
  · split
    · split <;> rfl
    · rfl

/-- Packing keeps the sign. -/
theorem unpackedSign?_pack (number : UnpackedFloat) :
    unpackedSign? (unpack Format.binary64 (pack Format.binary64 number)) =
      unpackedSign? number := by
  cases number with
  | notANumber => rfl
  | infinity sign => exact unpackedSign?_packComponents sign fun _ => rfl
  | zero sign => exact unpackedSign?_packComponents sign fun _ => rfl
  | finite sign mantissa exponent hpos =>
      simp only [pack]
      split
      · exact unpackedSign?_packComponents sign fun _ => rfl
      · next hsmall =>
          split
          · refine unpackedSign?_packComponents sign fun hfull => absurd ?_ hsmall
            have hfield := congrArg BitVec.toNat hfull
            rw [BitVec.toNat_ofNat] at hfield
            change _ % 2048 = 2047 at hfield
            change 2048 ≤ _
            omega
          · exact unpackedSign?_packComponents sign fun hfull => absurd hfull (by decide)

theorem unpack_finite_or_zero {value : Float} (hfinite : value.isFinite = true) :
    (∃ sign, value.toModel.unpack = .zero sign) ∨
      ∃ sign mantissa exponent hpos,
        value.toModel.unpack = .finite sign mantissa exponent hpos := by
  change value.toModel.unpack.isFinite = true at hfinite
  cases hunpack : value.toModel.unpack with
  | notANumber => simp [hunpack, UnpackedFloat.isFinite] at hfinite
  | infinity sign => simp [hunpack, UnpackedFloat.isFinite] at hfinite
  | zero sign => exact .inl ⟨sign, rfl⟩
  | finite sign mantissa exponent hpos => exact .inr ⟨sign, mantissa, exponent, hpos, rfl⟩

/-- The square of a finite double has no minus sign, even if it underflows or overflows. -/
theorem sign?_mul_self {value : Float} (hfinite : value.isFinite = true) :
    sign? (value * value) = some .positive := by
  have hsquare (sign : Sign) : sign * sign = .positive := by cases sign <;> rfl
  change unpackedSign? (unpack Format.binary64 (pack Format.binary64
    (UnpackedFloat.mul Format.binary64 value.toModel.unpack value.toModel.unpack))) = _
  rw [unpackedSign?_pack]
  rcases unpack_finite_or_zero hfinite with
    ⟨sign, hzero⟩ | ⟨sign, mantissa, exponent, hpos, hunpack⟩
  · rw [hzero, UnpackedFloat.mul, hsquare]
    rfl
  · rw [hunpack, UnpackedFloat.mul, unpackedSign?_roundWithAccuracy, hsquare]

theorem sign?_neg (value : Float) : sign? (-value) = (sign? value).map (- ·) := by
  change unpackedSign? (unpack Format.binary64 (pack Format.binary64 value.toModel.unpack.neg)) = _
  rw [unpackedSign?_pack, sign?]
  cases value.toModel.unpack <;> rfl

/-- A finite double that is not at most zero is a positive one. -/
theorem unpack_of_positive {value : Float} (hfinite : value.isFinite = true)
    (hpositive : ¬value ≤ 0) :
    ∃ mantissa exponent hpos, value.toModel.unpack = .finite .positive mantissa exponent hpos := by
  have hle : ¬value.toModel.unpack.le (.zero .positive) = true :=
    fun hle => hpositive (decide_eq_true hle)
  rcases unpack_finite_or_zero hfinite with
    ⟨sign, hzero⟩ | ⟨sign, mantissa, exponent, hpos, hunpack⟩
  · rw [hzero] at hle
    exact absurd rfl hle
  · cases sign with
    | negative =>
        rw [hunpack] at hle
        exact absurd rfl hle
    | positive => exact ⟨mantissa, exponent, hpos, hunpack⟩

/-- Division by a positive finite double keeps the sign. -/
theorem sign?_div {value divisor : Float} {sign : Sign} (hvalue : sign? value = some sign)
    (hfinite : divisor.isFinite = true) (hpositive : ¬divisor ≤ 0) :
    sign? (value / divisor) = some sign := by
  have hquotient (sign : Sign) : sign / .positive = sign := by cases sign <;> rfl
  obtain ⟨mantissa, exponent, hpos, hdivisor⟩ := unpack_of_positive hfinite hpositive
  change unpackedSign? (unpack Format.binary64 (pack Format.binary64
    (UnpackedFloat.div Format.binary64 value.toModel.unpack divisor.toModel.unpack))) = _
  rw [unpackedSign?_pack, hdivisor]
  rw [sign?] at hvalue
  rw [← hvalue]
  cases hunpack : value.toModel.unpack with
  | notANumber => simp [hunpack, unpackedSign?] at hvalue
  | infinity sign => rw [UnpackedFloat.div, hquotient]
  | zero sign =>
      rw [UnpackedFloat.div, hquotient]
  | finite sign mantissa exponent hpos =>
      rw [UnpackedFloat.div, unpackedSign?_roundWithAccuracy, hquotient]
      rfl

/-- Every bit pattern has a sign but those of results that are no number. -/
theorem unpackedSign?_unpack (bits : BitVec Format.binary64.numBits) :
    unpackedSign? (unpack Format.binary64 bits) =
      if unpackExponent bits = -1#_ ∧ unpackMantissa bits ≠ 0#_ then none
      else some (Sign.ofBitVec (unpackSign bits)) := by
  simp only [unpack]
  split
  · next hfull =>
      split
      · next hnone =>
          rw [if_neg fun hnan => hnan.2 hnone]
          rfl
      · next hsome =>
          rw [if_pos ⟨hfull, hsome⟩]
          rfl
  · next hnotFull =>
      have hnumber : ¬(unpackExponent bits = -1#_ ∧ unpackMantissa bits ≠ 0#_) :=
        fun hnan => hnotFull hnan.1
      rw [if_neg hnumber]
      split
      · split <;> rfl
      · rfl

theorem ofBitVec_unpackSign_eq_negative {bits : BitVec Format.binary64.numBits}
    (hsign : Sign.ofBitVec (unpackSign bits) = .negative) : bits.toNat / signBit % 2 = 1 := by
  rw [← toNat_unpackSign]
  rcases BitVec.eq_zero_or_eq_one (unpackSign bits) with hzero | hone
  · rw [hzero] at hsign
    contradiction
  · rw [hone]
    rfl

/-- The parts of a number with a minus sign. -/
theorem parts_of_sign? {value : Float} (hsign : sign? value = some .negative) :
    parts value = .infinite true ∨
      ∃ significand exponent, parts value = .finite true significand exponent := by
  change unpackedSign? (unpack Format.binary64 value.toBits.toBitVec) = _ at hsign
  rw [unpackedSign?_unpack] at hsign
  split at hsign
  · contradiction
  · next hnumber =>
      have hnegative : value.toBits.toNat / signBit % 2 = 1 :=
        ofBitVec_unpackSign_eq_negative (Option.some.inj hsign)
      simp only [parts, Parts.ofBits, hnegative, beq_self_eq_true]
      split
      · next hfull =>
          split
          · exact .inl rfl
          · next hsome =>
              refine absurd ⟨(unpackExponent_eq_full_iff _).mpr hfull, ?_⟩ hnumber
              rw [Ne, ← BitVec.toNat_inj, toNat_unpackMantissa]
              exact hsome
      · split
        · exact .inr ⟨_, _, rfl⟩
        · exact .inr ⟨_, _, rfl⟩

/-! ## Quotients of at most one -/

theorem roundQuotient_le (numerator denominator : Nat) :
    roundQuotient numerator denominator ≤ numerator / denominator + 1 := by
  simp only [roundQuotient]
  split
  · omega
  · split <;> omega

theorem log2_scale : Nat.log2 scale = 1074 := by
  unfold scale
  generalize 1074 = width
  exact Nat.log2_two_pow

/-- A quotient of at most one is not rounded to infinity. -/
theorem nearestBits_lt {numerator denominator : Nat} (hle : numerator ≤ denominator) :
    nearestBits numerator denominator < infinityBits := by
  have hquotient : numerator * scale / denominator ≤ scale :=
    Nat.div_le_of_le_mul (Nat.mul_le_mul_right scale hle)
  have hlog : (numerator * scale / denominator).log2 ≤ 1074 := by
    rw [← log2_scale, Nat.log2_eq_log_two, Nat.log2_eq_log_two]
    exact Nat.log_mono_right hquotient
  have hround := roundQuotient_le (numerator * scale)
    (denominator * 2 ^ ((numerator * scale / denominator).log2 - 52))
  rw [← Nat.div_div_eq_div_mul] at hround
  simp only [nearestBits, Nat.pow_eq]
  generalize roundQuotient (numerator * scale) _ = rounded at *
  generalize numerator * scale / denominator = quotient at *
  have hsignificand : quotient / 2 ^ (quotient.log2 - 52) < 2 * hiddenBit := by
    rw [Nat.div_lt_iff_lt_mul (by positivity)]
    calc quotient < 2 ^ (quotient.log2 + 1) := Nat.lt_log2_self
      _ ≤ 2 ^ (53 + (quotient.log2 - 52)) := Nat.pow_le_pow_right (by decide) (by omega)
      _ = 2 * hiddenBit * 2 ^ (quotient.log2 - 52) := Nat.pow_add 2 53 _
  apply Nat.lt_of_le_of_lt (Nat.min_le_right _ _)
  simp only [hiddenBit, infinityBits] at *
  omega

end Binary64

namespace Exponential

theorem one_pos : 0 < one := by
  unfold one
  generalize precision = width
  exact Nat.two_pow_pos width

theorem one_le_horner (x count k : Nat) : one ≤ horner x count k := by
  cases count with
  | zero => exact le_rfl
  | succ count => exact Nat.le_add_right _ _

theorem one_le_squareTimes {count value : Nat} (hvalue : one ≤ value) :
    one ≤ squareTimes count value := by
  induction count generalizing value with
  | zero => exact hvalue
  | succ count ih =>
      apply ih
      rw [Nat.le_div_iff_mul_le one_pos]
      exact Nat.mul_le_mul hvalue hvalue

theorem one_le_scaledExp (numerator : Nat) : one ≤ scaledExp numerator :=
  one_le_squareTimes (one_le_horner _ _ _)

/-- Of a negative number it is zero or the reciprocal of a number that is at least one. -/
theorem isFinite_roundedExp {value : Float} (hsign : Binary64.sign? value = some .negative) :
    (roundedExp value).isFinite = true := by
  rw [roundedExp]
  rcases Binary64.parts_of_sign? hsign with hparts | ⟨significand, exponent, hparts⟩
  · rw [hparts]
    exact Binary64.isFinite_signed (by decide)
  · rw [hparts]
    simp only [if_true]
    split
    · exact Binary64.isFinite_signed (by decide)
    · have hle := one_le_scaledExp (significand * Nat.pow 2 exponent)
      exact Binary64.isFinite_signed (Binary64.nearestBits_lt hle)

/-- The exponential of a number with a minus sign is finite. -/
def FiniteOnNegatives [Exponential] : Prop :=
  ∀ value, Binary64.sign? value = some .negative → (exp value).isFinite = true

theorem finiteOnNegatives_rounded : @FiniteOnNegatives rounded :=
  fun _ hsign => isFinite_roundedExp hsign

end Exponential

namespace Kernel

/-! ## Edges of an affinity graph -/

/-- Every kernel that was checked has a finite positive variance. -/
theorem variance_of_ofOptions {options : Options} {kernel : Kernel}
    (hkernel : ofOptions options = .ok kernel) :
    kernel.variance.isFinite = true ∧ ¬kernel.variance ≤ 0 := by
  rw [ofOptions] at hkernel
  split at hkernel
  · contradiction
  · split at hkernel
    · contradiction
    · next hvariance =>
        obtain rfl := Except.ok.inj hkernel
        simpa using hvariance

/-- Distances that a kernel accepts have finite affinities. -/
theorem isFinite_affinity [Exponential] (hexp : Exponential.FiniteOnNegatives) {kernel : Kernel}
    {distance : Float} (hvariance : kernel.variance.isFinite = true ∧ ¬kernel.variance ≤ 0)
    (haccepts : kernel.accepts distance = true) : (kernel.affinity distance).isFinite = true := by
  have hfinite : distance.isFinite = true := (Bool.and_eq_true_iff.mp haccepts).1
  apply hexp
  apply Binary64.sign?_div _ hvariance.1 hvariance.2
  rw [Binary64.sign?_neg, Binary64.sign?_mul_self hfinite]
  rfl

end Kernel

/-- Pairs are taken from below the diagonal. -/
theorem DistanceTable.lt_of_mem_pairs {table : DistanceTable} {row column : Nat} {distance : Float}
    (hmem : (row, column, distance) ∈ table.pairs) : column < row ∧ row < table.size := by
  simp only [pairs, rowPairs, List.mem_flatMap, List.mem_map, Prod.exists, Prod.mk.injEq] at hmem
  obtain ⟨values, index, hrow, value, place, hcolumn, rfl, rfl, -⟩ := hmem
  have hindex := (List.mem_zipIdx hrow).2.1
  have hplace := (List.mem_zipIdx hcolumn).2.1
  rw [List.length_take] at hplace
  rw [size]
  omega

/-- Every edge of an affinity graph joins a pair of items at an accepted distance. -/
theorem Kernel.exists_pair_of_mem_edges [Exponential] {kernel : Kernel} {table : DistanceTable}
    {edge : Edge Float} (hmem : edge ∈ (kernel.graph table).edges) :
    ∃ row column distance, column < row ∧ row < table.size ∧ kernel.accepts distance = true ∧
      edge.weight = kernel.affinity distance ∧
      (edge.source = column ∧ edge.target = row ∨ edge.source = row ∧ edge.target = column) := by
  obtain ⟨⟨row, column, distance⟩, hpair, hedge⟩ := List.mem_flatMap.mp hmem
  obtain ⟨hcolumn, hrow⟩ := DistanceTable.lt_of_mem_pairs hpair
  refine ⟨row, column, distance, hcolumn, hrow, ?_⟩
  rw [pairEdges] at hedge
  split at hedge
  · next haccepts =>
      simp only [List.mem_cons, List.not_mem_nil, or_false] at hedge
      rcases hedge with rfl | rfl
      · exact ⟨haccepts, rfl, .inl ⟨rfl, rfl⟩⟩
      · exact ⟨haccepts, rfl, .inr ⟨rfl, rfl⟩⟩
  · contradiction

/-- All edges of an affinity graph are sound. -/
theorem Kernel.sound_of_mem_edges [Exponential] (hexp : Exponential.FiniteOnNegatives)
    {kernel : Kernel} {table : DistanceTable}
    (hvariance : kernel.variance.isFinite = true ∧ ¬kernel.variance ≤ 0) :
    ∀ edge ∈ (kernel.graph table).edges, edge.Sound (kernel.graph table).nodeCount := by
  intro edge hmem
  obtain ⟨row, column, distance, hcolumn, hrow, haccepts, hweight, hends⟩ :=
    exists_pair_of_mem_edges hmem
  have hfinite : edge.weight.isFinite = true := by
    rw [hweight]
    exact isFinite_affinity hexp hvariance haccepts
  change edge.Sound table.size
  rcases hends with ⟨rfl, rfl⟩ | ⟨rfl, rfl⟩
  · exact ⟨hcolumn.trans hrow, hrow, hcolumn.ne, hfinite⟩
  · exact ⟨hrow, hcolumn.trans hrow, hcolumn.ne', hfinite⟩

end AverageLinkage
