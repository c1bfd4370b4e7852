import Mathlib
import AverageLinkage.Linkage.Weight

/-!
# Exact weights

Rational numbers as weights.  A clustering over them does without rounding what
the clustering over doubles does with it.
-/

namespace AverageLinkage

instance weightRat : Weight ℚ where
  share part whole := (part : ℚ) / (whole : ℚ)
  decidableLT := inferInstance
  isTop _ := false

@[simp]
theorem share_eq_div (part whole : ℕ) : (Weight.share part whole : ℚ) = part / whole := rfl

@[simp]
theorem isTop_rat (weight : ℚ) : Weight.isTop weight = false := rfl

end AverageLinkage
