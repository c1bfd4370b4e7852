import Mathlib
import AverageLinkage.Number.Binary64

/-!
# Doubles and their bit patterns

A double is determined by its parts: putting its bit pattern together again from the
sign, the significand and the exponent gives the double back.  A pattern belongs to a
finite double exactly if its exponent field is not full.
-/

namespace AverageLinkage.Binary64

open Float.Model (Format UnpackedFloat)
open Float.Model.UnpackedFloat

def exponentField (bits : Nat) : Nat :=
  bits / hiddenBit % 2048

/-! ## The three fields of a pattern -/

theorem toNat_unpackMantissa (bits : BitVec Format.binary64.numBits) :
    (unpackMantissa bits).toNat = bits.toNat % hiddenBit := by
  simp [unpackMantissa, hiddenBit]

theorem toNat_unpackExponent (bits : BitVec Format.binary64.numBits) :
    (unpackExponent bits).toNat = exponentField bits.toNat := by
  simp [unpackExponent, exponentField, hiddenBit, Nat.shiftRight_eq_div_pow]

theorem unpackExponent_eq_full_iff (bits : BitVec Format.binary64.numBits) :
    unpackExponent bits = -1#_ ↔ exponentField bits.toNat = 2047 := by
  rw [← BitVec.toNat_inj, toNat_unpackExponent]
  rfl

/-- A pattern is made up of its fields. -/
theorem packComponents_unpack (bits : BitVec Format.binary64.numBits) :
    packComponents Format.binary64 (Sign.ofBitVec (unpackSign bits)) (unpackExponent bits)
      (unpackMantissa bits) = bits := by
  have hsign : (Sign.ofBitVec (unpackSign bits)).toBitVec = unpackSign bits := by
    rcases BitVec.eq_zero_or_eq_one (unpackSign bits) with hzero | hone
    · rw [hzero]
      rfl
    · rw [hone]
      rfl
  rw [packComponents, hsign]
  ext index hindex
  simp only [unpackSign, unpackExponent, unpackMantissa, BitVec.extractLsb]
  grind

/-- Unpacked parts determine the bit pattern. -/
theorem packComponents_of_unpack {bits : BitVec Format.binary64.numBits}
    {exponent : BitVec Format.binary64.exponentBits}
    {mantissa : BitVec Format.binary64.mantissaBitsWithoutImplicit}
    (hexponent : unpackExponent bits = exponent) (hmantissa : unpackMantissa bits = mantissa) :
    packComponents Format.binary64 (Sign.ofBitVec (unpackSign bits)) exponent mantissa = bits := by
  rw [← hexponent, ← hmantissa, packComponents_unpack]

/-! ## Putting a pattern together -/

theorem log2_add_one_eq_iff {mantissa : Nat} (hpos : 0 < mantissa)
    (hlt : mantissa < 2 * hiddenBit) :
    mantissa.log2 + 1 = Format.binary64.mantissaBits ↔ hiddenBit ≤ mantissa := by
  have hbits : Format.binary64.mantissaBits = 53 := rfl
  have hlow := Nat.le_log2 (k := 52) hpos.ne'
  have hhigh := Nat.log2_lt (k := 53) hpos.ne'
  simp only [hiddenBit] at hlt ⊢
  rw [hbits]
  omega

/-- Numbers below the hidden bit are packed with the least exponent field. -/
theorem pack_subnormal (sign : Sign) {mantissa : Nat} (hpos : 0 < mantissa)
    (hlt : mantissa < hiddenBit) :
    pack Format.binary64 (.finite sign mantissa (-1074) hpos) =
      packComponents Format.binary64 sign 0#_ (BitVec.ofNat _ mantissa) := by
  have hfield : (-1074 + (Format.binary64.exponentBias : Int) +
      (Format.binary64.mantissaBitsWithoutImplicit : Int)).toNat = 1 := rfl
  have hlog := log2_add_one_eq_iff hpos (by omega)
  simp only [pack, hfield]
  rw [if_neg (by decide), if_neg (by omega)]

/-- Of other numbers the hidden bit is left out. -/
theorem pack_normal (sign : Sign) {mantissa field : Nat} (hpos : 0 < mantissa)
    (hlow : hiddenBit ≤ mantissa) (hhigh : mantissa < 2 * hiddenBit) (hfield : field < 2047) :
    pack Format.binary64 (.finite sign mantissa ((field : Int) - 1075) hpos) =
      packComponents Format.binary64 sign (BitVec.ofNat _ field) (BitVec.ofNat _ mantissa) := by
  have hbiased : ((field : Int) - 1075 + (Format.binary64.exponentBias : Int) +
      (Format.binary64.mantissaBitsWithoutImplicit : Int)).toNat = field := by
    have hbias : (Format.binary64.exponentBias : Int) = 1023 := rfl
    have hwidth : (Format.binary64.mantissaBitsWithoutImplicit : Int) = 52 := rfl
    rw [hbias, hwidth]
    omega
  have hlog := log2_add_one_eq_iff hpos hhigh
  simp only [pack, hbiased]
  rw [if_neg (by simpa using hfield), if_pos (hlog.mpr hlow)]

theorem toNat_one_append {width : Nat} (low : BitVec width) :
    (1#1 ++ low).toNat = 2 ^ width + low.toNat := by
  rw [BitVec.toNat_append, ← Nat.shiftLeft_add_eq_or_of_lt low.isLt, BitVec.toNat_ofNat,
    Nat.shiftLeft_eq]
  simp

/-- A pattern with at most one way to write what is not a number is that of the number
taken from it. -/
theorem pack_unpack {bits : BitVec Format.binary64.numBits}
    (hvalid : Format.binary64.Valid bits) :
    pack Format.binary64 (unpack Format.binary64 bits) = bits := by
  have hbias : (Format.binary64.exponentBias : Int) + Format.binary64.mantissaBitsWithoutImplicit =
      1075 := rfl
  have hmantissa : (unpackMantissa bits).toNat < hiddenBit := (unpackMantissa bits).isLt
  simp only [unpack, hbias]
  split
  · next hfull =>
      split
      · next hnone => exact packComponents_of_unpack hfull hnone
      · next hsome => exact (hvalid.eq_packedNaN hfull hsome).symm
  · next hnotFull =>
      split
      · next hzero =>
          split
          · next hnone => exact packComponents_of_unpack hzero hnone
          · next hsome =>
              have hexponent : ((unpackExponent bits).toNat : Int) - 1075 + 1 = -1074 := by
                rw [hzero]
                rfl
              simp only [hexponent]
              rw [pack_subnormal _ _ hmantissa]
              exact packComponents_of_unpack hzero (by simp)
      · next hnormal =>
          have happend : (1#1 ++ unpackMantissa bits).toNat =
              hiddenBit + (unpackMantissa bits).toNat := toNat_one_append _
          have hlt : (unpackExponent bits).toNat < 2047 := by
            have hbound : (unpackExponent bits).toNat < 2048 := (unpackExponent bits).isLt
            have hne := mt (unpackExponent_eq_full_iff bits).mpr hnotFull
            rw [← toNat_unpackExponent] at hne
            omega
          rw [pack_normal _ _ (by omega) (by omega) hlt, happend]
          refine packComponents_of_unpack (by simp) ?_
          rw [← BitVec.toNat_inj, BitVec.toNat_ofNat]
          have hmod : (hiddenBit + (unpackMantissa bits).toNat) % hiddenBit =
              (unpackMantissa bits).toNat := by
            rw [Nat.add_mod_left, Nat.mod_eq_of_lt hmantissa]
          exact hmod.symm

/-! ## Doubles -/

/-- A pattern that is valid comes back from the double it stands for. -/
theorem toBits_ofBits {bits : UInt64} (hvalid : Format.binary64.Valid bits.toBitVec) :
    (Float.ofBits bits).toBits = bits := by
  simp only [Float.ofBits, Float.toBits, Float.Model.ofBits, Float.Model.pack,
    pack_unpack hvalid]

theorem valid_of_exponentField_ne {bits : UInt64} (hfield : exponentField bits.toNat ≠ 2047) :
    Format.binary64.Valid bits.toBitVec :=
  ⟨fun hfull => absurd ((unpackExponent_eq_full_iff _).mp hfull) hfield⟩

theorem eq_of_toBits_eq {left right : Float} (hbits : left.toBits = right.toBits) :
    left = right := by
  obtain ⟨⟨leftBits, _⟩⟩ := left
  obtain ⟨⟨rightBits, _⟩⟩ := right
  simp only [Float.toBits] at hbits
  subst hbits
  rfl

/-- Every double comes back from its pattern. -/
theorem ofBits_toBits (value : Float) : Float.ofBits value.toBits = value :=
  eq_of_toBits_eq (toBits_ofBits value.toModel.valid)

/-- The largest exponent field is that of the infinities and of undefined results. -/
theorem isFinite_iff {value : Float} :
    value.isFinite = true ↔ exponentField value.toBits.toNat ≠ 2047 := by
  have hfull := unpackExponent_eq_full_iff value.toBits.toBitVec
  change (unpack Format.binary64 value.toBits.toBitVec).isFinite = true ↔
    exponentField value.toBits.toBitVec.toNat ≠ 2047
  rw [Ne, ← hfull, unpack]
  split
  · next hexponent =>
      split <;> simp only [UnpackedFloat.isFinite, hexponent, not_true_eq_false, reduceCtorEq]
  · next hexponent =>
      split
      · split <;> simp only [UnpackedFloat.isFinite, hexponent, not_false_eq_true]
      · simp only [UnpackedFloat.isFinite, hexponent, not_false_eq_true]

/-! ## Parts of a double -/

def Parts.toFloat : Parts → Float
  | .nan => Binary64.nan
  | .infinite negative => infinity negative
  | .finite negative significand exponent => signed negative (exponent * hiddenBit + significand)

/-- The significands and exponents of finite doubles: the hidden bit is set in all of
them but those of the least exponent. -/
structure IsFinite (significand exponent : Nat) : Prop where
  lt : significand < 2 * hiddenBit
  exponent_le : exponent ≤ 2045
  normal : exponent = 0 ∨ hiddenBit ≤ significand

theorem IsFinite.bits_lt {significand exponent : Nat} (hfinite : IsFinite significand exponent) :
    exponent * hiddenBit + significand < infinityBits := by
  have hlt := hfinite.lt
  have hle := hfinite.exponent_le
  simp only [hiddenBit, infinityBits] at hlt ⊢
  omega

/-- The parts of a finite double are in the range of `IsFinite`. -/
theorem isFinite_of_parts {value : Float} {negative : Bool} {significand exponent : Nat}
    (hparts : parts value = .finite negative significand exponent) :
    IsFinite significand exponent := by
  simp only [parts, Parts.ofBits] at hparts
  have hfraction := Nat.mod_lt value.toBits.toNat (show 0 < hiddenBit by decide)
  have hfield := Nat.mod_lt (value.toBits.toNat / hiddenBit) (show 0 < 2048 by decide)
  split at hparts
  · split at hparts <;> contradiction
  · next hnotFull =>
      split at hparts
      · obtain ⟨-, rfl, rfl⟩ := Parts.finite.inj hparts
        exact ⟨by omega, by omega, .inl rfl⟩
      · next hnormal =>
          obtain ⟨-, rfl, rfl⟩ := Parts.finite.inj hparts
          exact ⟨by omega, by omega, .inr (by omega)⟩

/-- Attaching the sign to the magnitude of a pattern gives the double back. -/
theorem signed_eq_of_toBits {value : Float} {negative : Bool} {bits : Nat}
    (hbits : value.toBits.toNat = if negative then signBit + bits else bits) :
    signed negative bits = value := by
  rw [signed, ← hbits, UInt64.ofNat_toNat, ofBits_toBits]

/-- A double is put together again from its parts. -/
theorem toFloat_parts (value : Float) : (parts value).toFloat = value := by
  have hlt := value.toBits.toNat_lt
  simp only [parts, Parts.ofBits]
  split
  · next hfull =>
      split
      · next hnone =>
          apply signed_eq_of_toBits
          simp only [signBit, hiddenBit, infinityBits, beq_iff_eq] at hfull hnone ⊢
          split <;> omega
      · next hsome =>
          have hbits : value.toBits.toBitVec = packedNaN Format.binary64 := by
            apply value.toModel.valid.eq_packedNaN
            · exact (unpackExponent_eq_full_iff _).mpr hfull
            · rw [Ne, ← BitVec.toNat_inj, toNat_unpackMantissa]
              exact hsome
          rw [← ofBits_toBits value, ← UInt64.ofBitVec_toBitVec value.toBits, hbits]
          rfl
  · next hnotFull =>
      split
      all_goals
        apply signed_eq_of_toBits
        simp only [signBit, hiddenBit, beq_iff_eq] at *
        split <;> omega

theorem toBits_signed {negative : Bool} {bits : Nat} (hbits : bits < infinityBits) :
    (signed negative bits).toBits.toNat = (if negative then signBit else 0) + bits := by
  simp only [infinityBits] at hbits
  have hword : (UInt64.ofNat (if negative then signBit + bits else bits)).toNat =
      (if negative then signBit else 0) + bits := by
    rw [UInt64.toNat_ofNat']
    simp only [signBit]
    split <;> omega
  have hnotFull : exponentField
      (UInt64.ofNat (if negative then signBit + bits else bits)).toNat ≠ 2047 := by
    rw [hword, exponentField]
    simp only [signBit, hiddenBit]
    split <;> omega
  rw [signed, toBits_ofBits (valid_of_exponentField_ne hnotFull), hword]

theorem isFinite_signed {negative : Bool} {bits : Nat} (hbits : bits < infinityBits) :
    (signed negative bits).isFinite = true := by
  rw [isFinite_iff, toBits_signed hbits, exponentField]
  simp only [infinityBits, signBit, hiddenBit] at hbits ⊢
  split <;> omega

end AverageLinkage.Binary64
