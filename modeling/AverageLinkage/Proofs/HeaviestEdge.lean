import Mathlib
import AverageLinkage.Linkage.Clusters
import AverageLinkage.Linkage.Exact

/-!
# The heaviest edge among numbers

As long as weights are compared like numbers, the heaviest edge is the first of
those that no edge outweighs, and it stays the heaviest one if other edges are left
out.  Doubles are compared like numbers unless one of them is not a number.  A zero
lies between the negative and the positive doubles whatever its sign is, and two
doubles of the same sign are compared by exponent first and significand second.
-/

namespace AverageLinkage

variable {W : Type} [Weight W]

/-- The given weights are compared like numbers.  No two of them are each below the
other, and if one is below another, then every third one is above the lower or below
the upper of them. -/
structure Weight.Ordered (numbers : Set W) : Prop where
  asymm : ∀ left ∈ numbers, ∀ right ∈ numbers, left < right → ¬right < left
  cotrans : ∀ left ∈ numbers, ∀ middle ∈ numbers, ∀ right ∈ numbers,
    left < right → left < middle ∨ middle < right

namespace Clusters

/-! ## The first of the heaviest edges -/

/-- An edge that outweighs all edges before it and that no edge after it
outweighs. -/
def FirstHeaviest (best : Edge W) (edges : List (Edge W)) : Prop :=
  ∃ before after, edges = before ++ best :: after ∧
    (∀ edge ∈ before, edge.weight < best.weight) ∧ ∀ edge ∈ after, ¬best.weight < edge.weight

/-- No edge at all outweighs the first heaviest one. -/
theorem FirstHeaviest.not_lt {numbers : Set W} (hnumbers : Weight.Ordered numbers)
    {edges : List (Edge W)} (hedges : ∀ edge ∈ edges, edge.weight ∈ numbers) {best : Edge W}
    (hbest : FirstHeaviest best edges) : ∀ edge ∈ edges, ¬best.weight < edge.weight := by
  obtain ⟨before, after, rfl, hbefore, hafter⟩ := hbest
  have hnumber : best.weight ∈ numbers := hedges best (by simp)
  intro edge hedge
  rcases List.mem_append.mp hedge with hedge' | hedge'
  · exact hnumbers.asymm _ (hedges edge hedge) _ hnumber (hbefore edge hedge')
  · rcases List.mem_cons.mp hedge' with rfl | hedge'
    · exact fun hlt => hnumbers.asymm _ hnumber _ hnumber hlt hlt
    · exact hafter edge hedge'

/-- The first of the heaviest edges does not hang on the edges that are left out. -/
theorem FirstHeaviest.filter {best : Edge W} {edges : List (Edge W)}
    (hbest : FirstHeaviest best edges) {keep : Edge W → Bool} (hkeep : keep best = true) :
    FirstHeaviest best (edges.filter keep) := by
  obtain ⟨before, after, rfl, hbefore, hafter⟩ := hbest
  refine ⟨before.filter keep, after.filter keep, ?_, ?_, ?_⟩
  · rw [List.filter_append, List.filter_cons_of_pos hkeep]
  · intro edge hedge
    exact hbefore edge (List.mem_of_mem_filter hedge)
  · intro edge hedge
    exact hafter edge (List.mem_of_mem_filter hedge)

/-- One more edge is compared with the heaviest of those before it. -/
theorem heaviest?_concat (edges : List (Edge W)) (last : Edge W) :
    heaviest? (edges ++ [last]) = some (match heaviest? edges with
      | none => last
      | some best => if best.weight < last.weight then last else best) := by
  cases edges with
  | nil => rfl
  | cons first rest => simp [heaviest?]

/-- If any two weights can be compared, the edge that is found is the first heaviest one. -/
theorem firstHeaviest_of_heaviest? {numbers : Set W} (hnumbers : Weight.Ordered numbers)
    {edges : List (Edge W)} (hedges : ∀ edge ∈ edges, edge.weight ∈ numbers) {best : Edge W}
    (hbest : heaviest? edges = some best) : FirstHeaviest best edges := by
  -- the edges are met from the left, so the induction takes the last one off
  induction edges using List.reverseRecOn generalizing best with
  | nil => simp [heaviest?] at hbest
  | append_singleton edges last ih =>
      have hrest : ∀ edge ∈ edges, edge.weight ∈ numbers :=
        fun edge hedge => hedges edge (List.mem_append_left _ hedge)
      have hlast : last.weight ∈ numbers := hedges last (by simp)
      rw [heaviest?_concat, Option.some.injEq] at hbest
      cases hformer : heaviest? edges with
      | none =>
          rw [hformer] at hbest
          rw [heaviest?_eq_none_iff.mp hformer, ← hbest]
          exact ⟨[], [], rfl, by simp, by simp⟩
      | some former =>
          have hfirst := ih hrest hformer
          simp only [hformer] at hbest
          by_cases hlt : former.weight < last.weight
          · rw [if_pos hlt] at hbest
            rw [← hbest]
            refine ⟨edges, [], rfl, ?_, by simp⟩
            intro edge hedge
            have hnumber := hrest former (mem_of_heaviest? hformer)
            have hsplit := hnumbers.cotrans _ hnumber _ (hrest edge hedge) _ hlast hlt
            exact hsplit.resolve_left (hfirst.not_lt hnumbers hrest edge hedge)
          · rw [if_neg hlt] at hbest
            rw [← hbest]
            obtain ⟨before, after, rfl, hbefore, hafter⟩ := hfirst
            refine ⟨before, after ++ [last], by simp, hbefore, ?_⟩
            simpa [or_imp, forall_and] using ⟨hafter, hlt⟩

theorem heaviest?_of_firstHeaviest {edges : List (Edge W)} {best : Edge W}
    (hbest : FirstHeaviest best edges) : heaviest? edges = some best := by
  obtain ⟨before, after, rfl, hbefore, hafter⟩ := hbest
  induction after using List.reverseRecOn with
  | nil =>
      rw [heaviest?_concat]
      cases hformer : heaviest? before with
      | none => rfl
      | some former => simp only [if_pos (hbefore former (mem_of_heaviest? hformer))]
  | append_singleton after last ih =>
      have hrest := ih fun edge hedge => hafter edge (List.mem_append_left _ hedge)
      rw [← List.cons_append, ← List.append_assoc, heaviest?_concat, hrest]
      simp only [if_neg (hafter last (by simp))]

/-- The heaviest edge is the heaviest of any edges among which it is left. -/
theorem heaviest?_filter {numbers : Set W} (hnumbers : Weight.Ordered numbers)
    {edges : List (Edge W)} (hedges : ∀ edge ∈ edges, edge.weight ∈ numbers) {best : Edge W}
    (hbest : heaviest? edges = some best) {keep : Edge W → Bool} (hkeep : keep best = true) :
    heaviest? (edges.filter keep) = some best := by
  apply heaviest?_of_firstHeaviest
  apply FirstHeaviest.filter _ hkeep
  exact firstHeaviest_of_heaviest? hnumbers hedges hbest

end Clusters

/-! ## The order of doubles -/

namespace Binary64

open Float.Model (UnpackedFloat)

def signOf : UnpackedFloat.Sign → ℤ
  | .negative => -1
  | .positive => 1

/-- The place of a double among all doubles: by class, then by exponent, then by
significand, the last two in reverse for negative doubles. -/
def rank : UnpackedFloat → ℤ ×ₗ (ℤ ×ₗ ℤ)
  | .infinity sign => toLex (2 * signOf sign, toLex (0, 0))
  | .finite sign significand exponent _ =>
      toLex (signOf sign, toLex (signOf sign * exponent, signOf sign * significand))
  | .zero _ => toLex (0, toLex (0, 0))
  | .notANumber => toLex (0, toLex (0, 0))

theorem unpacked_lt_iff {left right : UnpackedFloat} (hleft : left ≠ .notANumber)
    (hright : right ≠ .notANumber) : left.lt right = true ↔ rank left < rank right := by
  rw [UnpackedFloat.lt, beq_iff_eq]
  cases left with
  | notANumber => exact absurd rfl hleft
  | infinity sign =>
      cases right with
      | notANumber => exact absurd rfl hright
      | infinity other => cases sign <;> cases other <;> decide
      | zero other =>
          cases sign <;> simp [UnpackedFloat.compare, rank, signOf, Prod.Lex.toLex_lt_toLex]
      | finite other _ _ _ =>
          cases sign <;> cases other <;>
            simp [UnpackedFloat.compare, rank, signOf, Prod.Lex.toLex_lt_toLex]
  | zero sign =>
      cases right with
      | notANumber => exact absurd rfl hright
      | infinity other =>
          cases other <;> simp [UnpackedFloat.compare, rank, signOf, Prod.Lex.toLex_lt_toLex]
      | zero other => simp [UnpackedFloat.compare, rank]
      | finite other _ _ _ =>
          cases other <;> simp [UnpackedFloat.compare, rank, signOf, Prod.Lex.toLex_lt_toLex]
  | finite sign _ _ _ =>
      cases right with
      | notANumber => exact absurd rfl hright
      | infinity other =>
          cases sign <;> cases other <;>
            simp [UnpackedFloat.compare, rank, signOf, Prod.Lex.toLex_lt_toLex]
      | zero other =>
          cases sign <;> simp [UnpackedFloat.compare, rank, signOf, Prod.Lex.toLex_lt_toLex]
      | finite other _ _ _ =>
          cases sign <;> cases other <;>
            simp [UnpackedFloat.compare, rank, signOf, Prod.Lex.toLex_lt_toLex,
              Ordering.then_eq_lt, Ordering.then_eq_gt, compare_lt_iff_lt, compare_gt_iff_gt]

/-- Doubles that are numbers are compared by their rank, so their order is a linear one. -/
theorem lt_iff_rank_lt {left right : Float} (hleft : left.isNaN = false)
    (hright : right.isNaN = false) :
    left < right ↔ rank left.toModel.unpack < rank right.toModel.unpack := by
  have hnumber : ∀ value : Float, value.isNaN = false →
      value.toModel.unpack ≠ .notANumber := by
    intro value hvalue hnan
    rw [← UnpackedFloat.isNaN_iff] at hnan
    exact Bool.false_ne_true (hvalue.symm.trans hnan)
  rw [← unpacked_lt_iff (hnumber left hleft) (hnumber right hright)]
  exact decide_eq_true_iff

end Binary64

/-- Weights that are compared by their places in a linear order are compared like
numbers. -/
theorem Weight.ordered_of_lt_iff {Place : Type} [LinearOrder Place] {numbers : Set W}
    (place : W → Place) (hplace : ∀ left ∈ numbers, ∀ right ∈ numbers,
      left < right ↔ place left < place right) : Weight.Ordered numbers := by
  constructor
  · intro left hleft right hright hlt
    rw [hplace left hleft right hright] at hlt
    rw [hplace right hright left hleft]
    exact hlt.asymm
  · intro left hleft middle hmiddle right hright hlt
    rw [hplace left hleft right hright] at hlt
    rw [hplace left hleft middle hmiddle, hplace middle hmiddle right hright]
    exact (lt_or_ge _ _).imp_right fun hle => hle.trans_lt hlt

theorem Weight.ordered_rat : Weight.Ordered (Set.univ : Set ℚ) :=
  Weight.ordered_of_lt_iff id fun _ _ _ _ => Iff.rfl

/-- Doubles that are numbers are compared like numbers. -/
theorem Weight.ordered_double : Weight.Ordered {weight : Float | weight.isNaN = false} :=
  Weight.ordered_of_lt_iff (fun weight => Binary64.rank weight.toModel.unpack)
    fun _ hleft _ hright => Binary64.lt_iff_rank_lt hleft hright

end AverageLinkage
