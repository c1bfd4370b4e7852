import Mathlib
import AverageLinkage.Number.Shortest
import AverageLinkage.Proofs.DoubleBits

/-!
# Shortest digits round to their double

Every number in the rounding interval of a double is rounded to that double.  The grids
of the search become finer than the interval within seventeen steps, so the search ends
with a number in the interval.
-/

namespace AverageLinkage.Binary64

/-! ## Rounding -/

/-- An integer within half a unit of a quotient is the rounded quotient, unless it is odd
and just half a unit away. -/
theorem roundQuotient_eq {numerator denominator rounded : Nat} (hpos : 0 < denominator)
    (hlow : 2 * (rounded * denominator) ≤ 2 * numerator + denominator)
    (hhigh : 2 * numerator ≤ 2 * (rounded * denominator) + denominator)
    (htie : rounded % 2 = 1 → 2 * (rounded * denominator) < 2 * numerator + denominator ∧
      2 * numerator < 2 * (rounded * denominator) + denominator) :
    roundQuotient numerator denominator = rounded := by
  have hparts := Nat.div_add_mod numerator denominator
  have hrest := Nat.mod_lt numerator hpos
  simp only [roundQuotient]
  generalize numerator % denominator = rest at *
  generalize numerator / denominator = floor at *
  rw [Nat.mul_comm] at hparts
  have hfloor : floor ≤ rounded := by
    apply Nat.le_of_lt_succ
    apply Nat.lt_of_mul_lt_mul_right (a := denominator)
    rw [Nat.succ_mul]
    omega
  have hceil : rounded ≤ floor + 1 := by
    apply Nat.le_of_lt_succ
    apply Nat.lt_of_mul_lt_mul_right (a := denominator)
    rw [Nat.succ_mul, Nat.succ_mul]
    omega
  obtain rfl | rfl : rounded = floor ∨ rounded = floor + 1 := by omega
  · split
    · rfl
    · split <;> omega
  · rw [Nat.add_one_mul floor] at hlow hhigh htie
    split
    · omega
    · split <;> omega

theorem log2_sub_eq {quotient exponent : Nat}
    (hlow : exponent = 0 ∨ hiddenBit * 2 ^ exponent ≤ quotient)
    (hhigh : quotient < 2 * hiddenBit * 2 ^ exponent) : quotient.log2 - 52 = exponent := by
  have hhidden : hiddenBit = 2 ^ 52 := rfl
  rw [hhidden, ← Nat.pow_add] at hlow
  rw [hhidden, ← Nat.pow_succ', ← Nat.pow_add] at hhigh
  rcases Nat.eq_zero_or_pos quotient with rfl | hpos
  · rcases hlow with rfl | hlow
    · rfl
    · exact absurd hlow (by simp)
  · have hlog := (Nat.log2_lt hpos.ne').mpr hhigh
    rcases hlow with rfl | hlow
    · omega
    · have := (Nat.le_log2 hpos.ne').mpr hlow
      omega

/-- The nearest double by the exponent and the rounded significand. -/
theorem nearestBits_eq {numerator divisor exponent rounded : Nat} (hdivisor : 0 < divisor)
    (hlow : exponent = 0 ∨ hiddenBit * (divisor * 2 ^ exponent) ≤ numerator * scale)
    (hhigh : numerator * scale < 2 * hiddenBit * (divisor * 2 ^ exponent))
    (hround : roundQuotient (numerator * scale) (divisor * 2 ^ exponent) = rounded)
    (hbits : exponent * hiddenBit + rounded ≤ infinityBits) :
    nearestBits numerator divisor = exponent * hiddenBit + rounded := by
  have hexponent : (numerator * scale / divisor).log2 - 52 = exponent := by
    rw [Nat.mul_left_comm] at hlow hhigh
    refine log2_sub_eq (hlow.imp_right ?_) (Nat.div_lt_of_lt_mul hhigh)
    rw [Nat.le_div_iff_mul_le hdivisor, Nat.mul_comm _ divisor]
    exact id
  simp only [nearestBits, hexponent, Nat.pow_eq, hround]
  exact Nat.min_eq_right hbits

end AverageLinkage.Binary64

namespace AverageLinkage.Shortest

open Binary64 (IsFinite hiddenBit scale nearestBits roundQuotient)

theorem denominator_pos : 0 < denominator := by
  unfold denominator scale
  generalize 1074 = width
  exact Nat.mul_pos (by decide) (Nat.two_pow_pos width)

/-! ## The rounding interval -/

/-- The quotient of two numbers, which counts multiples of `2 ^ -1076`, is in the interval. -/
def Interval.Contains (interval : Interval) (numerator denominator : Nat) : Prop :=
  if interval.closed then
    interval.low * denominator ≤ numerator ∧ numerator ≤ interval.high * denominator
  else
    interval.low * denominator < numerator ∧ numerator < interval.high * denominator

instance (interval : Interval) (numerator denominator : Nat) :
    Decidable (interval.Contains numerator denominator) :=
  inferInstanceAs (Decidable (if interval.closed then _ ∧ _ else _ ∧ _))

theorem Interval.decide_contains (interval : Interval) (numerator denominator : Nat) :
    (if interval.closed then
      decide (interval.low * denominator ≤ numerator) &&
        decide (numerator ≤ interval.high * denominator)
    else
      decide (interval.low * denominator < numerator) &&
        decide (numerator < interval.high * denominator)) =
      decide (interval.Contains numerator denominator) := by
  obtain ⟨low, value, high, closed⟩ := interval
  cases closed <;> simp [Interval.Contains]

theorem Interval.contains_of_lt {interval : Interval} {numerator denominator : Nat}
    (hlow : interval.low * denominator < numerator)
    (hhigh : numerator < interval.high * denominator) :
    interval.Contains numerator denominator := by
  rw [Interval.Contains]
  split
  · exact ⟨hlow.le, hhigh.le⟩
  · exact ⟨hlow, hhigh⟩

theorem Interval.Contains.le {interval : Interval} {numerator denominator : Nat}
    (hin : interval.Contains numerator denominator) :
    interval.low * denominator ≤ numerator ∧ numerator ≤ interval.high * denominator := by
  rw [Interval.Contains] at hin
  split at hin
  · exact hin
  · exact ⟨hin.1.le, hin.2.le⟩

/-- Only the value of a quotient decides whether it is in the interval. -/
theorem Interval.contains_mul_iff {interval : Interval} {numerator denominator factor : Nat}
    (hpos : 0 < factor) :
    interval.Contains (numerator * factor) (denominator * factor) ↔
      interval.Contains numerator denominator := by
  simp only [Interval.Contains, ← Nat.mul_assoc, Nat.mul_le_mul_right_iff hpos,
    Nat.mul_lt_mul_right hpos]

section Rounding

variable {significand exponent numerator divisor : Nat}

/-- What the ends of the interval say about a quotient in it. -/
theorem Interval.Contains.bounds (hpos : 0 < significand)
    (hin : (Interval.of significand exponent).Contains (numerator * denominator) divisor) :
    4 * (numerator * scale) ≤
        4 * (significand * (divisor * 2 ^ exponent)) + 2 * (divisor * 2 ^ exponent) ∧
      4 * (significand * (divisor * 2 ^ exponent)) ≤
        4 * (numerator * scale) + 2 * (divisor * 2 ^ exponent) ∧
      (significand = hiddenBit → exponent ≠ 0 →
        4 * (significand * (divisor * 2 ^ exponent)) ≤
          4 * (numerator * scale) + divisor * 2 ^ exponent) ∧
      (significand % 2 = 1 →
        4 * (numerator * scale) <
            4 * (significand * (divisor * 2 ^ exponent)) + 2 * (divisor * 2 ^ exponent) ∧
          4 * (significand * (divisor * 2 ^ exponent)) <
            4 * (numerator * scale) + 2 * (divisor * 2 ^ exponent)) := by
  have hnumerator : numerator * denominator = 4 * (numerator * scale) := by
    rw [denominator]
    ring
  have hvalue : 4 * significand * 2 ^ exponent * divisor =
      4 * (significand * (divisor * 2 ^ exponent)) := by ring
  have hunit : 2 ^ exponent * divisor = divisor * 2 ^ exponent := Nat.mul_comm _ _
  have hle : divisor * 2 ^ exponent ≤ significand * (divisor * 2 ^ exponent) :=
    Nat.le_mul_of_pos_left _ hpos
  have hends := hin.le
  simp only [Interval.Contains, Interval.of, hnumerator, Nat.pow_eq] at hin hends
  generalize hP : divisor * 2 ^ exponent = unit at *
  generalize hA : significand * unit = middle at *
  generalize numerator * scale = scaled at *
  split at hends <;> split at hin <;>
    simp only [Nat.sub_mul, Nat.add_mul, Nat.mul_assoc 2, hvalue, hunit, beq_iff_eq] at * <;>
    grind

/-- Every number in the rounding interval of a double is rounded to it. -/
theorem nearestBits_of_contains (hfinite : IsFinite significand exponent) (hpos : 0 < significand)
    (hdivisor : 0 < divisor)
    (hin : (Interval.of significand exponent).Contains (numerator * denominator) divisor) :
    nearestBits numerator divisor = exponent * hiddenBit + significand := by
  obtain ⟨hhigh, hlow, hpower, hodd⟩ := hin.bounds hpos
  have hbits := hfinite.bits_lt
  have hunit : 0 < divisor * 2 ^ exponent := by positivity
  by_cases hnormal : exponent = 0 ∨ hiddenBit * (divisor * 2 ^ exponent) ≤ numerator * scale
  · have hmul := Nat.mul_le_mul_right (divisor * 2 ^ exponent) hfinite.lt
    rw [Nat.succ_mul] at hmul
    apply Binary64.nearestBits_eq hdivisor hnormal (by omega) ?_ hbits.le
    apply Binary64.roundQuotient_eq hunit <;> omega
  · -- Below a power of two the significand is rounded up to it, on the grid of half the size.
    rw [not_or, Nat.not_le] at hnormal
    obtain ⟨hzero, hless⟩ := hnormal
    have hle := hfinite.normal.resolve_left hzero
    obtain rfl : significand = hiddenBit := by
      by_contra hne
      have hmul := Nat.mul_le_mul_right (divisor * 2 ^ exponent)
        (Nat.lt_of_le_of_ne hle (Ne.symm hne))
      rw [Nat.succ_mul] at hmul
      omega
    have hnear := hpower rfl hzero
    obtain ⟨lower, rfl⟩ := Nat.exists_eq_add_one_of_ne_zero hzero
    have hhalf : divisor * 2 ^ (lower + 1) = 2 * (divisor * 2 ^ lower) := by ring
    have hdouble : hiddenBit * (2 * (divisor * 2 ^ lower)) =
        2 * hiddenBit * (divisor * 2 ^ lower) := by ring
    rw [hhalf, hdouble] at hless hnear
    have hcarry : (lower + 1) * hiddenBit + hiddenBit = lower * hiddenBit + 2 * hiddenBit := by ring
    rw [hcarry] at hbits ⊢
    apply Binary64.nearestBits_eq hdivisor (.inr ?_) hless ?_ hbits.le
    · have hmul := Nat.le_mul_of_pos_left (divisor * 2 ^ lower) hpos
      rw [Nat.mul_assoc] at hnear
      omega
    · apply Binary64.roundQuotient_eq (by positivity) <;> omega

end Rounding

/-! ## The search for the digits -/

/-- The grid point by membership in the interval. -/
theorem Interval.gridPoint?_eq (interval : Interval) (position : Int) :
    interval.gridPoint? position =
      let up := 10 ^ (-position).toNat
      let step := denominator * 10 ^ position.toNat
      let below := interval.value * up / step
      if interval.Contains (below * step) up ∧
          (2 * (interval.value * up % step) < step ∨
            ¬interval.Contains ((below + 1) * step) up) then
        some below
      else if interval.Contains ((below + 1) * step) up then some (below + 1)
      else none := by
  simp only [Interval.gridPoint?, Nat.pow_eq, Interval.decide_contains, Bool.and_eq_true,
    Bool.or_eq_true, Bool.not_eq_true', decide_eq_true_eq, decide_eq_false_iff_not]

theorem Interval.contains_of_gridPoint? {interval : Interval} {position : Int} {count : Nat}
    (hpoint : interval.gridPoint? position = some count) :
    interval.Contains (count * (denominator * 10 ^ position.toNat)) (10 ^ (-position).toNat) := by
  rw [Interval.gridPoint?_eq] at hpoint
  simp only at hpoint
  split at hpoint
  · next hbelow =>
      cases hpoint
      exact hbelow.1
  · split at hpoint
    · next habove =>
        cases hpoint
        exact habove
    · contradiction

/-- A grid that is finer than the interval has a point next to the value in it. -/
theorem Interval.exists_gridPoint? {interval : Interval} {position : Int}
    (hlow : interval.low < interval.value) (hhigh : interval.value < interval.high)
    (hfine : interval.low * 10 ^ (-position).toNat + denominator * 10 ^ position.toNat <
      interval.high * 10 ^ (-position).toNat) :
    ∃ count, interval.gridPoint? position = some count := by
  rw [Interval.gridPoint?_eq]
  simp only
  have hup : 0 < 10 ^ (-position).toNat := by positivity
  have hstep : 0 < denominator * 10 ^ position.toNat :=
    Nat.mul_pos denominator_pos (by positivity)
  generalize 10 ^ (-position).toNat = up at *
  generalize denominator * 10 ^ position.toNat = step at *
  have hparts := Nat.div_add_mod' (interval.value * up) step
  have hrest := Nat.mod_lt (interval.value * up) hstep
  generalize interval.value * up / step = below at *
  generalize interval.value * up % step = rest at *
  have hlow' := Nat.mul_lt_mul_of_pos_right hlow hup
  have hhigh' := Nat.mul_lt_mul_of_pos_right hhigh hup
  -- Either the point below the value is above the low end, or the next one is below the high end.
  have hinside : interval.Contains (below * step) up ∨
      interval.Contains ((below + 1) * step) up := by
    rw [Nat.add_one_mul]
    by_cases hbelow : interval.low * up < below * step
    · exact .inl (Interval.contains_of_lt hbelow (by omega))
    · exact .inr (Interval.contains_of_lt (by omega) (by omega))
  by_cases habove : interval.Contains ((below + 1) * step) up
  · rw [if_pos habove]
    split
    · exact ⟨_, rfl⟩
    · exact ⟨_, rfl⟩
  · rw [if_pos ⟨hinside.resolve_right habove, .inr habove⟩]
    exact ⟨_, rfl⟩

theorem Interval.gridPoint?_search {interval : Interval} {grids last : Nat} {position : Int}
    (hlast : last < grids) (hpoint : ∃ count, interval.gridPoint? (position - last) = some count) :
    interval.gridPoint? (interval.search grids position).2 =
      some (interval.search grids position).1 := by
  induction grids generalizing position last with
  | zero => omega
  | succ grids ih =>
      rw [Interval.search]
      split
      · next count hcount => exact hcount
      · next hnone =>
          obtain ⟨count, hcount⟩ := hpoint
          cases last with
          | zero => simp [hnone] at hcount
          | succ last =>
              apply ih (Nat.lt_of_succ_lt_succ hlast)
              exact ⟨count, by rw [← hcount]; congr 1; omega⟩

/-! ## Seventeen digits suffice -/

theorem Interval.low_lt_value {significand exponent : Nat} (hpos : 0 < significand) :
    (Interval.of significand exponent).low < (Interval.of significand exponent).value := by
  have hunit : 0 < 2 ^ exponent := by positivity
  have hle := Nat.le_mul_of_pos_left (2 ^ exponent) hpos
  simp only [Interval.of, Nat.pow_eq, Nat.mul_assoc 4]
  split <;> omega

theorem Interval.value_lt_high (significand exponent : Nat) :
    (Interval.of significand exponent).value < (Interval.of significand exponent).high := by
  have hunit : 0 < 2 ^ exponent := by positivity
  simp only [Interval.of, Nat.pow_eq]
  omega

/-- The width of the interval is more than `10 ^ -16` of the value. -/
theorem Interval.value_lt_width {significand exponent : Nat}
    (hfinite : IsFinite significand exponent) (hpos : 0 < significand) :
    (Interval.of significand exponent).low * 10 ^ 16 + (Interval.of significand exponent).value <
      (Interval.of significand exponent).high * 10 ^ 16 := by
  have hunit : 0 < 2 ^ exponent := by positivity
  have hle := Nat.le_mul_of_pos_left (2 ^ exponent) hpos
  have hmul := Nat.mul_le_mul_right (2 ^ exponent) hfinite.lt
  simp only [Interval.of, Nat.pow_eq, Nat.mul_assoc 4]
  split
  · next hpower =>
      rw [hpower.1] at *
      simp only [hiddenBit] at *
      omega
  · simp only [hiddenBit] at *
    rw [Nat.succ_mul] at hmul
    omega

theorem lt_pow_digitCount (value : Nat) : value < 10 ^ Decimal.digitCount value :=
  (Nat.length_toDigits_le_iff (by decide) Nat.length_toDigits_pos).mp le_rfl

theorem pow_digitCount_le {value : Nat} (hpos : 0 < value) :
    10 ^ (Decimal.digitCount value - 1) ≤ value := by
  rcases Nat.eq_zero_or_pos (Decimal.digitCount value - 1) with hzero | hlength
  · rwa [hzero]
  · rw [← Nat.not_lt, ← Nat.length_toDigits_le_iff (by decide) hlength]
    simp only [Decimal.digitCount] at hlength ⊢
    omega

theorem pow_leadingExponent_le {numerator divisor : Nat} (hnumerator : 0 < numerator)
    (hdivisor : 0 < divisor) :
    divisor * 10 ^ (leadingExponent numerator divisor).toNat ≤
      numerator * 10 ^ (-leadingExponent numerator divisor).toNat := by
  rw [leadingExponent]
  split
  · next hle =>
      have hquotient := pow_digitCount_le (Nat.div_pos hle hdivisor)
      have hlength : 0 < Decimal.digitCount (numerator / divisor) := Nat.length_toDigits_pos
      generalize Decimal.digitCount (numerator / divisor) = length at *
      rw [show ((length : Int) - 1).toNat = length - 1 by omega,
        show (-((length : Int) - 1)).toNat = 0 by omega]
      calc divisor * 10 ^ (length - 1) ≤ divisor * (numerator / divisor) := by gcongr
        _ ≤ numerator * 10 ^ 0 := by simpa using Nat.mul_div_le numerator divisor
  · next hlt =>
      have hquotient := lt_pow_digitCount ((divisor - 1) / numerator)
      rw [Nat.div_lt_iff_lt_mul hnumerator, Nat.mul_comm] at hquotient
      generalize Decimal.digitCount ((divisor - 1) / numerator) = length at *
      rw [show (-(length : Int)).toNat = 0 by omega,
        show (-(-(length : Int))).toNat = length by omega]
      omega

/-- Going down by `shift` grids divides the step by `10 ^ shift`. -/
theorem pow_toNat_sub (position : Int) (shift : Nat) :
    10 ^ (position - shift).toNat * 10 ^ shift * 10 ^ (-position).toNat =
      10 ^ position.toNat * 10 ^ (-(position - shift)).toNat := by
  rw [← Nat.pow_add, ← Nat.pow_add, ← Nat.pow_add]
  congr 1
  omega

/-- Sixteen grids below the leading one the step is at most `10 ^ -16` of the value. -/
theorem step_mul_le {numerator divisor : Nat} (hnumerator : 0 < numerator)
    (hdivisor : 0 < divisor) :
    divisor * 10 ^ (leadingExponent numerator divisor - (16 : Nat)).toNat * 10 ^ 16 ≤
      numerator * 10 ^ (-(leadingExponent numerator divisor - (16 : Nat))).toNat := by
  have hlead := pow_leadingExponent_le hnumerator hdivisor
  have hshift := pow_toNat_sub (leadingExponent numerator divisor) 16
  generalize leadingExponent numerator divisor = position at *
  refine le_of_mul_le_mul_right ?_ (show 0 < 10 ^ (-position).toNat by positivity)
  calc divisor * 10 ^ (position - (16 : Nat)).toNat * 10 ^ 16 * 10 ^ (-position).toNat
      = divisor *
          (10 ^ (position - (16 : Nat)).toNat * 10 ^ 16 * 10 ^ (-position).toNat) := by ring
    _ = divisor * 10 ^ position.toNat * 10 ^ (-(position - (16 : Nat))).toNat := by
        rw [hshift, Nat.mul_assoc]
    _ ≤ numerator * 10 ^ (-position).toNat * 10 ^ (-(position - (16 : Nat))).toNat := by gcongr
    _ = numerator * 10 ^ (-(position - (16 : Nat))).toNat * 10 ^ (-position).toNat := by ring

/-- The shortest digits of a double denote a number in its rounding interval. -/
theorem contains_digits {significand exponent : Nat} (hfinite : IsFinite significand exponent)
    (hpos : 0 < significand) :
    (Interval.of significand exponent).Contains
      ((digits significand exponent).1 * (denominator * 10 ^ (digits significand exponent).2.toNat))
      (10 ^ (-(digits significand exponent).2).toNat) := by
  apply Interval.contains_of_gridPoint?
  rw [digits]
  have hlow : (Interval.of significand exponent).low < (Interval.of significand exponent).value :=
    Interval.low_lt_value hpos
  have hhigh := Interval.value_lt_high significand exponent
  have hwidth := Interval.value_lt_width hfinite hpos
  generalize Interval.of significand exponent = interval at *
  have hstep := step_mul_le (Nat.zero_lt_of_lt hlow) denominator_pos
  have hpoint : ∃ count, interval.gridPoint?
      (leadingExponent interval.value denominator - (16 : Nat)) = some count := by
    apply Interval.exists_gridPoint? hlow hhigh
    apply Nat.lt_of_mul_lt_mul_right (a := 10 ^ 16)
    generalize denominator * 10 ^ (leadingExponent interval.value denominator - (16 : Nat)).toNat =
      step at *
    have hup : 0 < 10 ^ (-(leadingExponent interval.value denominator - (16 : Nat))).toNat := by
      positivity
    generalize 10 ^ (-(leadingExponent interval.value denominator - (16 : Nat))).toNat = up at *
    calc (interval.low * up + step) * 10 ^ 16
        = interval.low * 10 ^ 16 * up + step * 10 ^ 16 := by ring
      _ ≤ interval.low * 10 ^ 16 * up + interval.value * up := by gcongr
      _ = (interval.low * 10 ^ 16 + interval.value) * up := by ring
      _ < interval.high * 10 ^ 16 * up := Nat.mul_lt_mul_of_pos_right hwidth hup
      _ = interval.high * up * 10 ^ 16 := by ring
  exact Interval.gridPoint?_search (show 16 < 17 by decide) hpoint

end AverageLinkage.Shortest
