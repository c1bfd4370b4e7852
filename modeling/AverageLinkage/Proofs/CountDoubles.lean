import Mathlib
import AverageLinkage.Proofs.DoubleBits

/-!
# Counts as doubles

Rounding takes a number to zero only if it lies below the least positive double.  So a count
that is not zero is not zero as a double either, however large it is.
-/

namespace AverageLinkage.Binary64

open Float.Model (Format UnpackedFloat totalExponent)
open Float.Model.UnpackedFloat

/-! ## Rounding -/

theorem mantissa_shiftRight (extended : ExtendedMantissa) (places : Nat) :
    (extended >>> places).mantissa = extended.mantissa / 2 ^ places := by
  induction places with
  | zero => exact (Nat.div_one _).symm
  | succ places ih =>
      change (extended >>> places).mantissa / 2 = _
      rw [ih, Nat.div_div_eq_div_mul, Nat.pow_succ]

theorem mantissa_ofMantissaAndAccuracy (mantissa : Nat) (accuracy : Accuracy) :
    (ExtendedMantissa.ofMantissaAndAccuracy mantissa accuracy).mantissa = mantissa := by
  cases accuracy with
  | exact => rfl
  | inexact order => cases order <;> rfl

theorem le_roundedMantissa (extended : ExtendedMantissa) :
    extended.mantissa ≤ extended.roundedMantissa := by
  rw [ExtendedMantissa.roundedMantissa]
  cases extended.accuracy with
  | exact => exact le_rfl
  | inexact order => cases order <;> simp [Accuracy.roundToNearestEven]

/-- Shifting a number that is not below the least positive double leaves a mantissa that is
neither zero nor too long. -/
theorem shiftToTargetExponent_bounds {mantissa : Nat} {exponent : Int} (hpos : 0 < mantissa)
    (hmin : -1074 ≤ exponent + mantissa.log2) (accuracy : Accuracy) :
    0 < (shiftToTargetExponent Format.binary64 mantissa exponent accuracy).1.mantissa ∧
      (shiftToTargetExponent Format.binary64 mantissa exponent accuracy).1.mantissa <
        2 * hiddenBit ∧
      -1074 ≤ (shiftToTargetExponent Format.binary64 mantissa exponent accuracy).2 := by
  have htarget : Format.binary64.targetExponent (totalExponent mantissa exponent) =
      max ((mantissa.log2 : Int) + 1 + exponent - 53) (-1074) := rfl
  simp only [shiftToTargetExponent, shiftToExponent, mantissa_shiftRight,
    mantissa_ofMantissaAndAccuracy, htarget]
  obtain ⟨places, hplaces⟩ :
      ∃ places, (max ((mantissa.log2 : Int) + 1 + exponent - 53) (-1074) - exponent).toNat =
        places := ⟨_, rfl⟩
  rw [hplaces]
  refine ⟨?_, ?_, by omega⟩
  · apply Nat.div_pos _ (Nat.two_pow_pos places)
    calc 2 ^ places ≤ 2 ^ mantissa.log2 := Nat.pow_le_pow_right (by decide) (by omega)
      _ ≤ mantissa := Nat.log2_self_le hpos.ne'
  · rw [Nat.div_lt_iff_lt_mul (Nat.two_pow_pos places)]
    calc mantissa < 2 ^ (mantissa.log2 + 1) := Nat.lt_log2_self
      _ ≤ 2 ^ (53 + places) := Nat.pow_le_pow_right (by decide) (by omega)
      _ = 2 * hiddenBit * 2 ^ places := Nat.pow_add 2 53 places

/-- Finite numbers that have a place among the doubles. -/
inductive IsPlaced : UnpackedFloat → Prop
  | finite {sign : Sign} {mantissa : Nat} {exponent : Int} {hpos : 0 < mantissa}
      (hlt : mantissa < 2 * hiddenBit) (hmin : -1074 ≤ exponent) :
      IsPlaced (.finite sign mantissa exponent hpos)

/-- Rounding leaves a number that is not too small a place among the doubles. -/
theorem isPlaced_roundWithAccuracy (sign : Sign) {mantissa : Nat} {exponent : Int}
    (hpos : 0 < mantissa) (hmin : -1074 ≤ exponent + mantissa.log2) (accuracy : Accuracy) :
    IsPlaced (roundWithAccuracy Format.binary64 sign mantissa exponent accuracy) := by
  obtain ⟨hfirst, -, hexponent⟩ := shiftToTargetExponent_bounds hpos hmin accuracy
  have hrounded := hfirst.trans_le (le_roundedMantissa _)
  obtain ⟨hsecond, hlt, hleast⟩ := shiftToTargetExponent_bounds hrounded
    (le_add_of_le_of_nonneg hexponent (Int.natCast_nonneg _)) .exact
  simp only [roundWithAccuracy]
  rw [dif_neg hsecond.ne']
  exact .finite hlt hleast

theorem isPlaced_round (sign : Sign) {mantissa : Nat} (hpos : 0 < mantissa) :
    IsPlaced (UnpackedFloat.round Format.binary64 sign mantissa 0) := by
  have htarget : Format.binary64.targetExponent (totalExponent mantissa 0) =
      max ((mantissa.log2 : Int) + 1 + 0 - 53) (-1074) := rfl
  simp only [UnpackedFloat.round, decreaseExponent, htarget]
  apply isPlaced_roundWithAccuracy
  · rw [Nat.shiftLeft_eq]
    exact Nat.mul_pos hpos (Nat.two_pow_pos _)
  · omega

/-! ## Packing -/

/-- Doubles other than zeros, with the least exponent that a double has. -/
inductive IsNonzero : UnpackedFloat → Prop
  | infinity {sign : Sign} : IsNonzero (.infinity sign)
  | finite {sign : Sign} {mantissa : Nat} {exponent : Int} {hpos : 0 < mantissa}
      (hmin : -1074 ≤ exponent) : IsNonzero (.finite sign mantissa exponent hpos)

theorem isNonzero_unpack_infinity (sign : Sign) :
    IsNonzero (unpack Format.binary64 (pack Format.binary64 (.infinity sign))) := by
  cases sign <;> exact .infinity

theorem isNonzero_unpack_packComponents (sign : Sign)
    {exponent : BitVec Format.binary64.exponentBits}
    {mantissa : BitVec Format.binary64.mantissaBitsWithoutImplicit}
    (hnumber : exponent ≠ -1#_) (hnonzero : exponent = 0#_ → mantissa ≠ 0#_) :
    IsNonzero (unpack Format.binary64
      (packComponents Format.binary64 sign exponent mantissa)) := by
  have hbias : (Format.binary64.exponentBias : Int) = 1023 := rfl
  simp only [unpack, unpackExponent_packComponents, unpackMantissa_packComponents]
  rw [if_neg hnumber]
  split
  · next hzero =>
      rw [dif_neg (hnonzero hzero), hbias]
      exact .finite (by omega)
  · next hfield =>
      have hpos : exponent.toNat ≠ 0 := fun hzero => hfield (BitVec.toNat_inj.mp hzero)
      rw [hbias]
      exact .finite (by omega)

/-- A number that has a place is not packed as a zero. -/
theorem IsPlaced.isNonzero_unpack {number : UnpackedFloat} (hplaced : IsPlaced number) :
    IsNonzero (unpack Format.binary64 (pack Format.binary64 number)) := by
  cases hplaced with
  | @finite sign mantissa exponent hpos hlt hmin =>
      have hbias : (Format.binary64.exponentBias : Int) = 1023 := rfl
      have hwidth : (Format.binary64.mantissaBitsWithoutImplicit : Int) = 52 := rfl
      have hlog := log2_add_one_eq_iff hpos hlt
      simp only [pack]
      split
      · exact isNonzero_unpack_infinity sign
      · next hsmall =>
          change ¬2048 ≤ _ + 1 at hsmall
          rw [hbias, hwidth] at hsmall ⊢
          split
          -- No exponent is below the least one, so the field of a full mantissa is not zero.
          · refine isNonzero_unpack_packComponents sign (fun hfull => ?_) fun hzero => ?_
            · have hfield := congrArg BitVec.toNat hfull
              rw [BitVec.toNat_ofNat] at hfield
              change _ % 2048 = 2047 at hfield
              omega
            · have hfield := congrArg BitVec.toNat hzero
              rw [BitVec.toNat_ofNat] at hfield
              change _ % 2048 = 0 at hfield
              omega
          · next hshort =>
              have hbelow : mantissa < hiddenBit := by omega
              refine isNonzero_unpack_packComponents sign (by decide) fun _ hzero => ?_
              have hfield := congrArg BitVec.toNat hzero
              rw [BitVec.toNat_ofNat] at hfield
              change mantissa % hiddenBit = 0 at hfield
              rw [Nat.mod_eq_of_lt hbelow] at hfield
              omega

/-! ## Counts -/

theorem unpack_one : (Float.ofBits 0x3ff0000000000000).toModel.unpack =
    .finite .positive hiddenBit (-52) (by decide) := by
  rfl

/-- A product with one is not rounded to zero. -/
theorem isNonzero_mul_one {value : Float} (hvalue : IsNonzero value.toModel.unpack) :
    IsNonzero (value * Float.ofBits 0x3ff0000000000000).toModel.unpack := by
  change IsNonzero (unpack Format.binary64 (pack Format.binary64 (UnpackedFloat.mul
    Format.binary64 value.toModel.unpack (Float.ofBits 0x3ff0000000000000).toModel.unpack)))
  rw [unpack_one]
  generalize value.toModel.unpack = factor at *
  cases hvalue with
  | infinity =>
      rw [UnpackedFloat.mul]
      exact isNonzero_unpack_infinity _
  | @finite sign mantissa exponent hpos hmin =>
      have hproduct : 0 < mantissa * hiddenBit := Nat.mul_pos hpos (by decide)
      have hlog : 52 ≤ (mantissa * hiddenBit).log2 := by
        rw [Nat.le_log2 hproduct.ne']
        exact Nat.le_mul_of_pos_left hiddenBit hpos
      rw [UnpackedFloat.mul]
      exact (isPlaced_roundWithAccuracy _ hproduct (by omega) .exact).isNonzero_unpack

theorem isNonzero_toFloat {count : UInt64} (hpos : 0 < count.toNat) :
    IsNonzero count.toFloat.toModel.unpack := by
  have hsign : compare (count.toNat : Int) 0 = .gt := by
    rw [compare_gt_iff_gt]
    omega
  change IsNonzero (unpack Format.binary64 (pack Format.binary64
    (UnpackedFloat.normalize Format.binary64 count.toNat 0 .positive)))
  rw [UnpackedFloat.normalize, hsign]
  exact (isPlaced_round .positive (by omega)).isNonzero_unpack

/-- The double of a positive count is no zero, however large the count is. -/
theorem isNonzero_ofNat {count : Nat} (hpos : 0 < count) :
    IsNonzero (Float.ofNat count).toModel.unpack := by
  change IsNonzero (Float.ofScientific count false 0).toModel.unpack
  rw [Float.ofScientific]
  split
  · next hsmall =>
      apply isNonzero_mul_one
      apply isNonzero_toFloat
      rw [Nat.toUInt64, UInt64.toNat_ofNat']
      omega
  · change IsNonzero (unpack Format.binary64 (pack Format.binary64
      (UnpackedFloat.ofScientific Format.binary64 count 0)))
    have hbits : (Format.binary64.mantissaBits : Int) = 53 := rfl
    rw [UnpackedFloat.ofScientific, dif_neg hpos.ne', if_neg (by decide), if_neg (by simp),
      if_pos le_rfl, UnpackedFloat.mul]
    refine IsPlaced.isNonzero_unpack (isPlaced_roundWithAccuracy _ ?_ ?_ _)
    · rw [Nat.shiftLeft_eq]
      exact Nat.mul_pos (Nat.mul_pos hpos (Nat.two_pow_pos _)) (Nat.pow_pos (by decide))
    · rw [hbits]
      omega

/-- No positive count is zero as a double. -/
theorem ofNat_beq_zero {count : Nat} (hpos : 0 < count) : (Float.ofNat count == 0) = false := by
  have hnonzero := isNonzero_ofNat hpos
  change (Float.ofNat count).toModel.unpack.beq (.zero .positive) = false
  generalize (Float.ofNat count).toModel.unpack = number at *
  cases hnonzero with
  | @infinity sign => cases sign <;> rfl
  | @finite sign mantissa exponent hpos hmin => cases sign <;> rfl

end AverageLinkage.Binary64
