import Mathlib
import AverageLinkage.Linkage.Arena
import AverageLinkage.Proofs.PlainMerge

/-!
# Joining edges in slots

Some edges in a row of slots are joined with those parallel to them.  The first edge of each
bundle stays in its slot, and the slots of the others become empty.  This can be done in any
number of passes, each over some of the bundles.  Once the empty slots are dropped, what is
left are the edges joined in a list.
-/

namespace AverageLinkage.Arena

open Clusters

variable {W : Type}

/-- A choice of whole bundles. -/
def OfBundles (chosen : Edge W → Bool) : Prop :=
  ∀ edge other : Edge W, edge.parallel other = true → chosen edge = chosen other

theorem any_parallel_congr {edge other : Edge W} (hparallel : edge.parallel other = true)
    (edges : List (Edge W)) : edges.any edge.parallel = edges.any other.parallel := by
  rw [parallel_congr hparallel]

/-- A bundle that is chosen has no edge that is not. -/
theorem OfBundles.parallel_eq_false {chosen : Edge W → Bool} (hbundles : OfBundles chosen)
    {edge other : Edge W} (hedge : chosen edge = true) (hother : ¬chosen other = true) :
    edge.parallel other = false := by
  by_contra hparallel
  rw [hbundles edge other (by simpa using hparallel)] at hedge
  exact hother hedge

section

variable [Weight W]

/-- An edge with the weights of the edges parallel to it added in order. -/
def gather (edge : Edge W) (others : List (Edge W)) : Edge W :=
  { edge with
    weight := ((others.filter edge.parallel).map Edge.weight).foldl (· + ·) edge.weight }

theorem gather_congr {edge : Edge W} {others remaining : List (Edge W)}
    (hfilter : others.filter edge.parallel = remaining.filter edge.parallel) :
    gather edge others = gather edge remaining := by
  rw [gather, gather, hfilter]

theorem gather_of_filter_eq_nil {edge : Edge W} {others : List (Edge W)}
    (hfilter : others.filter edge.parallel = []) : gather edge others = edge := by
  rw [gather, hfilter]
  rfl

theorem gather_cons_of_parallel {edge other : Edge W} (hparallel : edge.parallel other = true)
    (others : List (Edge W)) :
    gather edge (other :: others) =
      gather { edge with weight := edge.weight + other.weight } others := by
  rw [gather, List.filter_cons_of_pos hparallel]
  rfl

/-- Join the chosen edges with those parallel to them.  `before` are the edges met so far. -/
def joinSlots (chosen : Edge W → Bool) :
    (before : List (Edge W)) → List (Option (Edge W)) → List (Option (Edge W))
  | _, [] => []
  | before, none :: rest => none :: joinSlots chosen before rest
  | before, some edge :: rest =>
      (if chosen edge then
        if before.any edge.parallel then none else some (gather edge rest.reduceOption)
      else some edge) :: joinSlots chosen (edge :: before) rest

/-- Of the edges met so far only those matter that are parallel to chosen ones. -/
theorem joinSlots_congr_before {chosen : Edge W → Bool} {before others : List (Edge W)}
    (hbefore : ∀ edge : Edge W, chosen edge = true →
      before.any edge.parallel = others.any edge.parallel) (slots : List (Option (Edge W))) :
    joinSlots chosen before slots = joinSlots chosen others slots := by
  induction slots generalizing before others with
  | nil => rfl
  | cons slot rest ih =>
      cases slot with
      | none => rw [joinSlots, joinSlots, ih hbefore]
      | some edge =>
          have hnext : ∀ other : Edge W, chosen other = true →
              (edge :: before).any other.parallel = (edge :: others).any other.parallel := by
            intro other hother
            rw [List.any_cons, List.any_cons, hbefore other hother]
          rw [joinSlots, joinSlots, ih hnext]
          by_cases hchosen : chosen edge = true
          · rw [hbefore edge hchosen]
          · rw [if_neg hchosen, if_neg hchosen]

/-- Only the choice among the edges in the slots matters. -/
theorem joinSlots_congr {chosen picked : Edge W → Bool} {slots : List (Option (Edge W))}
    (hsame : ∀ edge ∈ slots.reduceOption, chosen edge = picked edge) (before : List (Edge W)) :
    joinSlots chosen before slots = joinSlots picked before slots := by
  induction slots generalizing before with
  | nil => rfl
  | cons slot rest ih =>
      cases slot with
      | none =>
          rw [List.reduceOption_cons_of_none] at hsame
          rw [joinSlots, joinSlots, ih hsame]
      | some edge =>
          rw [List.reduceOption_cons_of_some, List.forall_mem_cons] at hsame
          rw [joinSlots, joinSlots, ih hsame.2, hsame.1]

theorem joinSlots_none (before : List (Edge W)) (slots : List (Option (Edge W))) :
    joinSlots (fun _ => false) before slots = slots := by
  induction slots generalizing before with
  | nil => rfl
  | cons slot rest ih =>
      cases slot with
      | none => rw [joinSlots, ih]
      | some edge => rw [joinSlots, ih, if_neg Bool.false_ne_true]

/-- A slot without a chosen edge is passed over. -/
theorem joinSlots_cons_of_not {chosen : Edge W → Bool} (hbundles : OfBundles chosen)
    {slot : Option (Edge W)} (hslot : ¬slot.any chosen = true) (before : List (Edge W))
    (rest : List (Option (Edge W))) :
    joinSlots chosen before (slot :: rest) = slot :: joinSlots chosen before rest := by
  cases slot with
  | none => rfl
  | some edge =>
      rw [Option.any_some] at hslot
      rw [joinSlots, if_neg hslot]
      congr 1
      apply joinSlots_congr_before
      intro other hother
      rw [List.any_cons, hbundles.parallel_eq_false hother hslot, Bool.false_or]

/-! ## Several passes -/

/-- Bundles that are not chosen stay as they are. -/
theorem filter_joinSlots_of_not {chosen : Edge W → Bool} (hbundles : OfBundles chosen)
    {edge : Edge W} (hedge : chosen edge = false) (before : List (Edge W))
    (slots : List (Option (Edge W))) :
    (joinSlots chosen before slots).reduceOption.filter edge.parallel =
      slots.reduceOption.filter edge.parallel := by
  induction slots generalizing before with
  | nil => rfl
  | cons slot rest ih =>
      cases slot with
      | none => simpa [joinSlots] using ih before
      | some other =>
          by_cases hchosen : chosen other = true
          · have hparallel : edge.parallel other = false := by
              by_contra hparallel
              rw [hbundles edge other (by simpa using hparallel), hchosen] at hedge
              exact Bool.noConfusion hedge
            have hgather : edge.parallel (gather other rest.reduceOption) = false := hparallel
            rw [joinSlots, if_pos hchosen]
            split <;> simp [hparallel, hgather, ih]
          · rw [joinSlots, if_neg hchosen, List.reduceOption_cons_of_some,
              List.reduceOption_cons_of_some, List.filter_cons, List.filter_cons, ih]

/-- Nothing is left of a chosen bundle that was met before. -/
theorem filter_joinSlots_of_any {chosen : Edge W → Bool} (hbundles : OfBundles chosen)
    {edge : Edge W} (hedge : chosen edge = true) {before : List (Edge W)}
    (hbefore : before.any edge.parallel = true) (slots : List (Option (Edge W))) :
    (joinSlots chosen before slots).reduceOption.filter edge.parallel = [] := by
  induction slots generalizing before with
  | nil => rfl
  | cons slot rest ih =>
      cases slot with
      | none => simpa [joinSlots] using ih hbefore
      | some other =>
          have hnext : (other :: before).any edge.parallel = true := by simp [hbefore]
          have hrest := ih hnext
          by_cases hparallel : edge.parallel other = true
          · rw [hbundles edge other hparallel] at hedge
            rw [any_parallel_congr hparallel] at hbefore
            rw [joinSlots, if_pos hedge, if_pos hbefore, List.reduceOption_cons_of_none, hrest]
          · have hgather : ¬edge.parallel (gather other rest.reduceOption) = true := hparallel
            rw [joinSlots]
            split_ifs <;> simp [hparallel, hgather, hrest]

/-- Two passes join the edges that one of them would join. -/
theorem joinSlots_joinSlots {first second : Edge W → Bool} (hfirst : OfBundles first)
    {before others : List (Edge W)}
    (hbefore : ∀ edge : Edge W, others.any edge.parallel = before.any edge.parallel)
    (slots : List (Option (Edge W))) :
    joinSlots second others (joinSlots first before slots) =
      joinSlots (fun edge => first edge || second edge) before slots := by
  induction slots generalizing before others with
  | nil => rfl
  | cons slot rest ih =>
      cases slot with
      | none => rw [joinSlots, joinSlots, joinSlots, ih hbefore]
      | some edge =>
          have hself : edge.parallel edge = true := by simp [Edge.parallel]
          by_cases hpicked : first edge = true
          · by_cases hmet : before.any edge.parallel = true
            · -- the first pass empties the slot, but the bundle of the edge was met before
              have hskip : ∀ other : Edge W,
                  others.any other.parallel = (edge :: before).any other.parallel := by
                intro other
                rw [hbefore, List.any_cons]
                by_cases hparallel : other.parallel edge = true
                · rw [any_parallel_congr hparallel, hmet, Bool.or_true]
                · simp [hparallel]
              simp only [joinSlots, hpicked, hmet, Bool.true_or, if_true, ih hskip]
            · -- nothing of the bundle is left for the second pass
              have hgone : (joinSlots first (edge :: before) rest).reduceOption.filter
                  (gather edge rest.reduceOption).parallel = [] :=
                filter_joinSlots_of_any hfirst hpicked (by simp [hself]) rest
              have hnext : ∀ other : Edge W,
                  (gather edge rest.reduceOption :: others).any other.parallel =
                    (edge :: before).any other.parallel := by
                intro other
                rw [List.any_cons, List.any_cons, hbefore]
                rfl
              have hother : ¬others.any (gather edge rest.reduceOption).parallel = true := by
                rw [hbefore]
                exact hmet
              simp only [joinSlots, hpicked, if_neg hmet, if_neg hother, Bool.true_or, if_true,
                ih hnext, gather_of_filter_eq_nil hgone, ite_self]
          · have hnext : ∀ other : Edge W,
                (edge :: others).any other.parallel = (edge :: before).any other.parallel := by
              intro other
              rw [List.any_cons, List.any_cons, hbefore]
            have hgather : gather edge (joinSlots first (edge :: before) rest).reduceOption =
                gather edge rest.reduceOption :=
              gather_congr (filter_joinSlots_of_not hfirst (by simpa using hpicked) _ rest)
            simp only [joinSlots, if_neg hpicked, hgather, hbefore, ih hnext]
            simp [hpicked]

/-! ## Dropping the empty slots -/

/-- The first edge of a bundle gathers the weight of the whole bundle. -/
theorem gather_eq_bundleWeight {before rest : List (Edge W)} {edge : Edge W}
    (hfirst : ¬before.any edge.parallel = true) :
    gather edge rest = { edge with weight := bundleWeight (before ++ edge :: rest) edge } := by
  rw [Edge.parallel_eq_leads, Bool.not_eq_true] at hfirst
  rw [gather, bundleWeight_of_first hfirst, Edge.parallel_eq_leads]

/-- What is left in the slots is what is left of each edge in a list. -/
theorem reduceOption_joinSlots {node : Nat} (passed : List (Edge W)) {before : List (Edge W)}
    (hbefore : ∀ edge : Edge W, before.any edge.parallel = passed.any edge.parallel)
    (slots : List (Option (Edge W))) :
    (joinSlots (·.touches node) before slots).reduceOption =
      (List.range' passed.length slots.reduceOption.length).filterMap
        (joined? node (passed ++ slots.reduceOption)) := by
  induction slots generalizing passed before with
  | nil => rfl
  | cons slot rest ih =>
      cases slot with
      | none => simpa [joinSlots] using ih passed hbefore
      | some edge =>
          have hnext : ∀ other : Edge W,
              (edge :: before).any other.parallel = (passed ++ [edge]).any other.parallel := by
            intro other
            rw [List.any_cons, hbefore, List.any_append, Bool.or_comm]
            simp
          have hrest := ih (passed ++ [edge]) hnext
          rw [List.length_append, List.length_singleton, ← List.append_cons] at hrest
          rw [List.reduceOption_cons_of_some, List.length_cons, List.range'_succ,
            List.filterMap_cons, joined?_append, ← hrest, joinSlots, hbefore]
          by_cases htouches : edge.touches node = true
          · by_cases hmet : passed.any edge.parallel = true
            · simp only [htouches, hmet, if_true, List.reduceOption_cons_of_none]
            · simp only [htouches, if_true, if_neg hmet, List.reduceOption_cons_of_some,
                gather_eq_bundleWeight hmet]
          · simp only [if_neg htouches, List.reduceOption_cons_of_some]

/-- Joining the slots at a cluster joins the edges in them. -/
theorem reduceOption_joinSlots_touches (node : Nat) (slots : List (Option (Edge W))) :
    (joinSlots (·.touches node) [] slots).reduceOption = bundleAt node slots.reduceOption := by
  rw [bundleAt_eq_joined, List.range_eq_range']
  exact reduceOption_joinSlots [] (fun _ => rfl) slots

end

end AverageLinkage.Arena
