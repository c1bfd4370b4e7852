import Mathlib
import AverageLinkage.Number.Positional
import AverageLinkage.Text.Blank
import AverageLinkage.Proofs.ShortestDigits

/-!
# Written numbers are read back

Reading the text of a double gives that double, whether it is finite or not, and reading
the digits of a natural number gives that number as long as it is within the limit.
Number texts are not empty, and they consist of graphic characters only.
-/

namespace AverageLinkage

/-! ## Digits -/

namespace Natural

theorem ofDigits_replicate_append (zeros : Nat) (digits : List Char) :
    ofDigits (List.replicate zeros '0' ++ digits) = ofDigits digits := by
  change Nat.ofDigitChars 10 (List.replicate zeros '0' ++ digits) 0 = Nat.ofDigitChars 10 digits 0
  rw [Nat.ofDigitChars_append, Nat.ofDigitChars_replicate_zero, Nat.mul_zero]

theorem ofDigits_append_replicate (digits : List Char) (zeros : Nat) :
    ofDigits (digits ++ List.replicate zeros '0') = ofDigits digits * 10 ^ zeros := by
  change Nat.ofDigitChars 10 (digits ++ List.replicate zeros '0') 0 =
    Nat.ofDigitChars 10 digits 0 * 10 ^ zeros
  rw [Nat.ofDigitChars_append, Nat.ofDigitChars_replicate_zero, Nat.mul_comm]

theorem ofDigits_toDigits (value : Nat) : ofDigits (Nat.toDigits 10 value) = value :=
  Nat.ofDigitChars_ten_toDigits

theorem isDigit_toDigits {value : Nat} {digit : Char} (hdigit : digit ∈ Nat.toDigits 10 value) :
    digit.isDigit = true :=
  Nat.isDigit_of_mem_toDigits (by decide) (by decide) hdigit

theorem dropPlus_of_isDigit {digits : List Char}
    (hdigits : ∀ digit ∈ digits, digit.isDigit = true) :
    dropPlus digits = digits := by
  rw [dropPlus.eq_def]
  split
  · next rest => exact absurd (hdigits '+' List.mem_cons_self) (by decide)
  · rfl

/-- The digits of a natural number are read as that number. -/
theorem read?_toDigits {limit value : Nat} (hle : value ≤ limit) :
    read? limit (Nat.toDigits 10 value) = some value := by
  have hnumeral : isNumeral (Nat.toDigits 10 value) = true := by
    simp only [isNumeral, Bool.and_eq_true, Bool.not_eq_true', List.isEmpty_eq_false_iff,
      List.all_eq_true]
    exact ⟨Nat.toDigits_ne_nil, fun digit => isDigit_toDigits⟩
  simp only [read?, dropPlus_of_isDigit fun digit => isDigit_toDigits, hnumeral, ofDigits_toDigits,
    hle, decide_true, Bool.and_self, if_true]

end Natural

/-! ## Positional texts -/

namespace Positional

/-- A text by its digits before and after the point.  Without the latter there is no
point. -/
structure Spells (text whole fraction : List Char) : Prop where
  text_eq : text = if fraction.isEmpty then whole else whole ++ '.' :: fraction
  whole_ne_nil : whole ≠ []
  isDigit : ∀ digit ∈ whole ++ fraction, digit.isDigit = true

/-- Zeros at the end are cut off. -/
theorem exists_eq_append_zeros (digits : List Char) :
    ∃ zeros, digits =
      (digits.reverse.dropWhile (· == '0')).reverse ++ List.replicate zeros '0' := by
  have hzeros : ∀ digit ∈ digits.reverse.takeWhile (· == '0'), digit = '0' := by
    intro digit hdigit
    simpa using List.mem_takeWhile_imp hdigit
  refine ⟨(digits.reverse.takeWhile (· == '0')).length, ?_⟩
  rw [← List.reverse_replicate, ← List.eq_replicate_of_mem hzeros, ← List.reverse_append,
    List.takeWhile_append_dropWhile, List.reverse_reverse]

/-- Zeros before the digits of a number leave it as it is. -/
theorem padded_toDigits (coefficient width : Nat) {padded : List Char}
    (hpadded : List.replicate (width - (Nat.toDigits 10 coefficient).length) '0' ++
      Nat.toDigits 10 coefficient = padded) :
    (∀ digit ∈ padded, digit.isDigit = true) ∧ width ≤ padded.length ∧
      Natural.ofDigits padded = coefficient := by
  subst hpadded
  refine ⟨?_, ?_, ?_⟩
  · intro digit hmem
    rcases List.mem_append.mp hmem with hzero | hmem
    · rw [List.eq_of_mem_replicate hzero]
      decide
    · exact Natural.isDigit_toDigits hmem
  · rw [List.length_append, List.length_replicate]
    omega
  · rw [Natural.ofDigits_replicate_append, Natural.ofDigits_toDigits]

/-- What the text of `coefficient * 10 ^ -places` spells. -/
theorem exists_spells_withPoint (coefficient places : Nat) :
    ∃ whole fraction zeros, Spells (withPoint coefficient places) whole fraction ∧
      fraction.length + zeros = places ∧
      Natural.ofDigits (whole ++ fraction) * 10 ^ zeros = coefficient := by
  simp only [withPoint]
  generalize hpadded : List.replicate (places + 1 - (Nat.toDigits 10 coefficient).length) '0' ++
      Nat.toDigits 10 coefficient = padded
  obtain ⟨hdigit, hlength, hvalue⟩ := padded_toDigits coefficient (places + 1) hpadded
  clear hpadded
  have hparts := List.take_append_drop (padded.length - places) padded
  have hfraction : (padded.drop (padded.length - places)).length = places := by
    rw [List.length_drop]
    omega
  have hwhole : padded.take (padded.length - places) ≠ [] := by
    rw [← List.length_pos_iff, List.length_take]
    omega
  generalize padded.take (padded.length - places) = whole at *
  generalize padded.drop (padded.length - places) = fraction at *
  obtain ⟨zeros, hzeros⟩ := exists_eq_append_zeros fraction
  generalize (fraction.reverse.dropWhile (· == '0')).reverse = kept at *
  subst hzeros hparts
  refine ⟨whole, kept, zeros, ⟨rfl, hwhole, ?_⟩, ?_, ?_⟩
  · intro digit hmem
    apply hdigit digit
    rw [← List.append_assoc]
    exact List.mem_append_left _ hmem
  · simpa using hfraction
  · rw [← Natural.ofDigits_append_replicate, List.append_assoc, hvalue]

end Positional

/-! ## Reading a positional text -/

namespace Decimal

open Binary64 (IsFinite hiddenBit)
open Positional (Spells)
open Shortest (Interval denominator)

/-- The sign of a number is found again. -/
theorem splitSign_minus (negative : Bool) {text : List Char} {first : Char}
    (hfirst : text.head? = some first) (hsign : first ≠ '-' ∧ first ≠ '+') :
    splitSign (Positional.minus negative text) = (negative, text) := by
  cases negative with
  | true => rfl
  | false =>
      obtain ⟨rest, rfl⟩ := List.head?_eq_some_iff.mp hfirst
      simp [Positional.minus, splitSign, hsign]

theorem toLower_of_isDigit {digit : Char} (hdigit : digit.isDigit = true) :
    digit.toLower = digit := by
  simp only [Char.isDigit, Bool.and_eq_true, decide_eq_true_eq] at hdigit
  rw [Char.toLower, dif_neg]
  rintro ⟨hupper, -⟩
  exact absurd (UInt32.le_trans hupper hdigit.2) (by decide)

/-- Digits with a point are read as they are spelled. -/
theorem readUnsigned?_of_spells {text whole fraction : List Char}
    (hspells : Spells text whole fraction) (negative : Bool) :
    readUnsigned? negative text =
      some (.finite negative (Natural.ofDigits (whole ++ fraction))
        (-(fraction.length : Int))) := by
  obtain ⟨rfl, hwhole, hdigit⟩ := hspells
  have hdigits : ∀ digit ∈ whole, digit.isDigit = true :=
    fun digit hmem => hdigit digit (List.mem_append_left _ hmem)
  have hfraction : ∀ digit ∈ fraction, digit.isDigit = true :=
    fun digit hmem => hdigit digit (List.mem_append_right _ hmem)
  cases fraction with
  | nil =>
      have htake : whole.takeWhile Char.isDigit = whole := List.takeWhile_eq_self_iff.mpr hdigits
      have hdrop : whole.dropWhile Char.isDigit = [] := List.dropWhile_eq_nil_iff.mpr hdigits
      simp [readUnsigned?, htake, hdrop, hwhole, readExponent?]
  | cons digit rest =>
      have htake : (whole ++ '.' :: digit :: rest).takeWhile Char.isDigit = whole := by
        rw [List.takeWhile_append_of_pos hdigits]
        simp
      have hdrop : (whole ++ '.' :: digit :: rest).dropWhile Char.isDigit =
          '.' :: digit :: rest := by
        rw [List.dropWhile_append_of_pos hdigits]
        simp
      have htake' := List.takeWhile_eq_self_iff.mpr hfraction
      have hdrop' := List.dropWhile_eq_nil_iff.mpr hfraction
      simp [readUnsigned?, htake, hdrop, htake', hdrop', readExponent?]

/-- A positional text is read as it is spelled, with its sign. -/
theorem readNumeral?_of_spells {text whole fraction : List Char}
    (hspells : Spells text whole fraction) (negative : Bool) :
    readNumeral? (Positional.minus negative text) =
      some (.finite negative (Natural.ofDigits (whole ++ fraction))
        (-(fraction.length : Int))) := by
  obtain ⟨first, rest, hwhole⟩ := List.exists_cons_of_ne_nil hspells.whole_ne_nil
  have hdigit : first.isDigit = true := hspells.isDigit first (by simp [hwhole])
  have hhead : text.head? = some first := by
    rw [hspells.text_eq, hwhole]
    split <;> rfl
  have hsign : first ≠ '-' ∧ first ≠ '+' := by
    constructor <;> rintro rfl <;> simp at hdigit
  have hlower : (text.map Char.toLower).head? = some first := by
    rw [List.head?_map, hhead, Option.map_some, toLower_of_isDigit hdigit]
  have hword (word : List Char) (hletter : word.head?.all Char.isDigit = false) :
      text.map Char.toLower ≠ word := by
    rintro rfl
    rw [hlower, Option.all_some, hdigit] at hletter
    contradiction
  simp only [readNumeral?, splitSign_minus negative hhead hsign]
  rw [if_neg (hword _ (by decide)), if_neg]
  · exact readUnsigned?_of_spells hspells negative
  · rw [Bool.or_eq_true, decide_eq_true_eq, decide_eq_true_eq, not_or]
    exact ⟨hword _ (by decide), hword _ (by decide)⟩

/-! ## Rounding what was read -/

/-- The interval of a finite double ends below every number that is read as infinity. -/
theorem high_lt {significand exponent : Nat} (hfinite : IsFinite significand exponent) :
    (Interval.of significand exponent).high < 10 ^ 310 * denominator := by
  have hbig : 8 * hiddenBit * 2 ^ 2045 < 10 ^ 310 * denominator := by decide +kernel
  have hunit := Nat.pow_le_pow_right (show 0 < 2 by decide) hfinite.exponent_le
  have hlt := hfinite.lt
  generalize 2045 = top at hbig hunit
  calc (Interval.of significand exponent).high
      = (4 * significand + 2) * 2 ^ exponent := by
        simp only [Interval.of, Nat.pow_eq]
        ring
    _ ≤ 8 * hiddenBit * 2 ^ top := Nat.mul_le_mul (by omega) hunit
    _ < 10 ^ 310 * denominator := hbig

/-- The interval of a positive double keeps a distance from zero. -/
theorem two_le_low {significand exponent : Nat} (hpos : 0 < significand) :
    2 ≤ (Interval.of significand exponent).low := by
  have hunit : 0 < 2 ^ exponent := by positivity
  have hle := Nat.le_mul_of_pos_left (2 ^ exponent) hpos
  simp only [Interval.of, Nat.pow_eq, Nat.mul_assoc 4]
  split <;> omega

section Contained

variable {significand exponent coefficient places : Nat}

theorem coefficient_pos (hpos : 0 < significand)
    (hin : (Interval.of significand exponent).Contains (coefficient * denominator) (10 ^ places)) :
    0 < coefficient := by
  rcases Nat.eq_zero_or_pos coefficient with rfl | hcoefficient
  · have hlow := hin.le.1
    have htwo : 2 ≤ (Interval.of significand exponent).low := two_le_low hpos
    have hten : 0 < 10 ^ places := by positivity
    have := Nat.mul_pos (Nat.zero_lt_of_lt htwo) hten
    omega
  · exact hcoefficient

/-- A number in the rounding interval of a double is not taken for a huge one. -/
theorem digitCount_le (hfinite : IsFinite significand exponent) (hpos : 0 < significand)
    (hin : (Interval.of significand exponent).Contains (coefficient * denominator) (10 ^ places)) :
    digitCount coefficient ≤ places + 310 := by
  by_contra hmany
  have hcoefficient := Shortest.pow_digitCount_le (coefficient_pos hpos hin)
  have hpow : 10 ^ (places + 310) ≤ 10 ^ (digitCount coefficient - 1) :=
    Nat.pow_le_pow_right (by decide) (by omega)
  have hhigh := high_lt hfinite
  have hten : 0 < 10 ^ places := by positivity
  generalize 310 = huge at *
  have hlt : coefficient * denominator < 10 ^ (places + huge) * denominator :=
    calc
      coefficient * denominator ≤ (Interval.of significand exponent).high * 10 ^ places :=
        hin.le.2
      _ < 10 ^ huge * denominator * 10 ^ places := Nat.mul_lt_mul_of_pos_right hhigh hten
      _ = 10 ^ (places + huge) * denominator := by ring
  have := Nat.lt_of_mul_lt_mul_right hlt
  omega

/-- A number in the rounding interval of a double is not taken for a tiny one. -/
theorem lt_digitCount (hpos : 0 < significand)
    (hin : (Interval.of significand exponent).Contains (coefficient * denominator) (10 ^ places)) :
    places < digitCount coefficient + 325 := by
  by_contra hfew
  have hsmall : denominator < 10 ^ 325 := by decide +kernel
  have hpow : 10 ^ (digitCount coefficient + 325) ≤ 10 ^ places :=
    Nat.pow_le_pow_right (by decide) (by omega)
  have htwo : 2 ≤ (Interval.of significand exponent).low := two_le_low hpos
  generalize 325 = tiny at *
  have hlt : coefficient * denominator < 10 ^ (digitCount coefficient + tiny) :=
    calc coefficient * denominator < 10 ^ digitCount coefficient * 10 ^ tiny :=
          Nat.mul_lt_mul'' (Shortest.lt_pow_digitCount coefficient) hsmall
      _ = 10 ^ (digitCount coefficient + tiny) := (Nat.pow_add ..).symm
  have hle : 10 ^ places ≤ coefficient * denominator :=
    calc 10 ^ places ≤ (Interval.of significand exponent).low * 10 ^ places :=
          Nat.le_mul_of_pos_left _ (by omega)
      _ ≤ coefficient * denominator := hin.le.1
  omega

/-- A decimal number in the rounding interval of a double is read as that double. -/
theorem toFloat_of_contains (negative : Bool)
    (hfinite : IsFinite significand exponent) (hpos : 0 < significand)
    (hin : (Interval.of significand exponent).Contains (coefficient * denominator) (10 ^ places)) :
    (Numeral.finite negative coefficient (-(places : Int))).toFloat =
      Binary64.signed negative (exponent * hiddenBit + significand) := by
  have hhuge : ¬hugeExponent < -(places : Int) + digitCount coefficient := by
    have := digitCount_le hfinite hpos hin
    rw [hugeExponent]
    omega
  have htiny : ¬-(places : Int) + digitCount coefficient ≤ tinyExponent := by
    have := lt_digitCount hpos hin
    rw [tinyExponent]
    omega
  have hten : 0 < 10 ^ places := by positivity
  rw [Numeral.toFloat, if_neg (coefficient_pos hpos hin).ne', if_neg hhuge, if_neg htiny,
    Binary64.nearest,
    show (-(places : Int)).toNat = 0 by omega, show (-(-(places : Int))).toNat = places by omega,
    Nat.pow_eq, Nat.pow_eq, Nat.pow_zero, Nat.mul_one,
    Shortest.nearestBits_of_contains hfinite hpos hten hin]

end Contained

/-- The text of a finite double is read as the same double. -/
theorem read?_ofParts_finite {significand exponent : Nat} (negative : Bool)
    (hfinite : IsFinite significand exponent) :
    read? (Positional.ofParts (.finite negative significand exponent)) =
      some (Binary64.signed negative (exponent * hiddenBit + significand)) := by
  rcases Nat.eq_zero_or_pos significand with rfl | hpos
  · obtain rfl : exponent = 0 := hfinite.normal.resolve_right (by decide)
    cases negative <;> rfl
  · have hin := Shortest.contains_digits hfinite hpos
    simp only [Positional.ofParts, if_neg hpos.ne', Positional.ofDecimal]
    generalize Shortest.digits significand exponent = decimal at *
    obtain ⟨coefficient, position⟩ := decimal
    obtain ⟨whole, fraction, zeros, hspells, hplaces, hvalue⟩ :=
      Positional.exists_spells_withPoint (coefficient * Nat.pow 10 position.toNat) (-position).toNat
    have hnumerator : coefficient * (denominator * 10 ^ position.toNat) =
        Natural.ofDigits (whole ++ fraction) * denominator * 10 ^ zeros :=
      calc coefficient * (denominator * 10 ^ position.toNat)
          = coefficient * 10 ^ position.toNat * denominator := by ring
        _ = Natural.ofDigits (whole ++ fraction) * 10 ^ zeros * denominator := by
            rw [hvalue, Nat.pow_eq]
        _ = Natural.ofDigits (whole ++ fraction) * denominator * 10 ^ zeros := by ring
    rw [hnumerator, ← hplaces, Nat.pow_add, Interval.contains_mul_iff (by positivity)] at hin
    rw [read?, readNumeral?_of_spells hspells, Option.map_some,
      toFloat_of_contains negative hfinite hpos hin]

/-- The text of a double is read as that double. -/
theorem read?_chars (value : Float) : read? (Positional.chars value) = some value := by
  have hvalue := Binary64.toFloat_parts value
  rw [Positional.chars]
  cases hparts : Binary64.parts value with
  | nan =>
      rw [hparts] at hvalue
      rw [← hvalue]
      rfl
  | infinite negative =>
      rw [hparts] at hvalue
      rw [← hvalue]
      cases negative <;> rfl
  | finite negative significand exponent =>
      rw [read?_ofParts_finite negative (Binary64.isFinite_of_parts hparts)]
      rw [hparts, Binary64.Parts.toFloat] at hvalue
      rw [hvalue]

end Decimal

/-! ## Graphic characters -/

namespace Text

/-- The printed characters of ASCII but the space. -/
def IsGraphic (char : Char) : Prop :=
  0x20 < char.toNat ∧ char.toNat < 0x7f

theorem IsGraphic.isBlank {char : Char} (hgraphic : IsGraphic char) : isBlank char = false := by
  obtain ⟨hlow, hhigh⟩ := hgraphic
  simp only [Text.isBlank, blankRanges, List.any_cons, List.any_nil, Bool.or_false,
    Bool.or_eq_false_iff, Bool.and_eq_false_iff, decide_eq_false_iff_not]
  omega

theorem isGraphic_of_isDigit {digit : Char} (hdigit : digit.isDigit = true) : IsGraphic digit := by
  simp only [Char.isDigit, Bool.and_eq_true, decide_eq_true_eq] at hdigit
  have hlow : 48 ≤ digit.val.toNat := UInt32.le_iff_toNat_le.mp hdigit.1
  have hhigh : digit.val.toNat ≤ 57 := UInt32.le_iff_toNat_le.mp hdigit.2
  change 0x20 < digit.val.toNat ∧ digit.val.toNat < 0x7f
  omega

end Text

namespace Positional

open Text (IsGraphic)

theorem Spells.isGraphic {text whole fraction : List Char} (hspells : Spells text whole fraction) :
    ∀ char ∈ text, IsGraphic char := by
  obtain ⟨rfl, -, hdigit⟩ := hspells
  intro char hmem
  have hcases : char = '.' ∨ char ∈ whole ++ fraction := by
    split at hmem
    · exact .inr (List.mem_append_left _ hmem)
    · simp only [List.mem_append, List.mem_cons] at hmem ⊢
      tauto
  rcases hcases with rfl | hmem
  · exact ⟨by decide, by decide⟩
  · exact Text.isGraphic_of_isDigit (hdigit char hmem)

theorem isGraphic_minus {negative : Bool} {text : List Char}
    (htext : ∀ char ∈ text, IsGraphic char) : ∀ char ∈ minus negative text, IsGraphic char := by
  rw [minus]
  split
  · rintro char (_ | _)
    · exact ⟨by decide, by decide⟩
    · exact htext char ‹_›
  · exact htext

/-- A written double has neither blanks nor line feeds. -/
theorem isGraphic_chars (value : Float) : ∀ char ∈ chars value, IsGraphic char := by
  rw [chars]
  cases Binary64.parts value with
  | nan => simp [ofParts, IsGraphic]
  | infinite negative => exact isGraphic_minus (by simp [IsGraphic])
  | finite negative significand exponent =>
      simp only [ofParts]
      split
      · exact isGraphic_minus (by simp [IsGraphic])
      · obtain ⟨whole, fraction, zeros, hspells, -⟩ := exists_spells_withPoint
          ((Shortest.digits significand exponent).1 *
            Nat.pow 10 (Shortest.digits significand exponent).2.toNat)
          (-(Shortest.digits significand exponent).2).toNat
        exact isGraphic_minus hspells.isGraphic

theorem chars_ne_nil (value : Float) : chars value ≠ [] := by
  intro hnil
  have hread := Decimal.read?_chars value
  rw [hnil] at hread
  contradiction

end Positional

end AverageLinkage
