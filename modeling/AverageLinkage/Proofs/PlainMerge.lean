import Mathlib
import AverageLinkage.Proofs.MovedEdges

/-!
# A merge edge by edge

What a merge leaves, told for each edge on its own.  An edge between the two parts goes.  An
edge with one end at a part comes to the new cluster with a share of its weight.  Of the
edges that then lead between the new cluster and the same other one, in the same direction,
the first one stays in its place, with the sum of their weights from left to right.  Every
other edge stays as it is.
-/

namespace AverageLinkage.Clusters

variable {W : Type} [Weight W]

/-- An edge after the merge, unless it leads between the two parts. -/
def Fusion.relocate (fusion : Fusion W) (edge : Edge W) : Edge W :=
  if edge.source = fusion.left then
    { source := fusion.node, target := edge.target, weight := edge.weight * fusion.leftShare }
  else if edge.source = fusion.right then
    { source := fusion.node, target := edge.target, weight := edge.weight * fusion.rightShare }
  else if edge.target = fusion.left then
    { source := edge.source, target := fusion.node, weight := edge.weight * fusion.leftShare }
  else if edge.target = fusion.right then
    { source := edge.source, target := fusion.node, weight := edge.weight * fusion.rightShare }
  else edge

/-- What is left of the edge with number `index` once parallel edges at `node` are joined.
Of edges with the same ends the first one stays, with the sum of their weights. -/
def joined? (node : Nat) (edges : List (Edge W)) (index : Nat) : Option (Edge W) := do
  let edge ← edges[index]?
  if edge.source ≠ node ∧ edge.target ≠ node then
    some edge
  else if (edges.take index).any (Edge.leads edge.source edge.target) then
    none
  else
    let later := (edges.drop (index + 1)).filter (Edge.leads edge.source edge.target)
    some { edge with weight := (later.map Edge.weight).foldl (· + ·) edge.weight }

def Fusion.plain (fusion : Fusion W) (edges : List (Edge W)) : List (Edge W) :=
  let between (edge : Edge W) : Bool :=
    edge.leads fusion.left fusion.right || edge.leads fusion.right fusion.left
  let moved := (edges.filter fun edge => !between edge).map fusion.relocate
  (List.range moved.length).filterMap (joined? fusion.node moved)

/-! ## Joining parallel edges -/

omit [Weight W] in
theorem touches_iff {node : Nat} {edge : Edge W} :
    edge.touches node = true ↔ edge.source = node ∨ edge.target = node := by
  simp [Edge.touches]

/-- The edges parallel to one that touches a cluster touch it, too. -/
theorem bundleWeight_filter_touches {node : Nat} {edge : Edge W}
    (htouches : edge.touches node = true) (edges : List (Edge W)) :
    bundleWeight (edges.filter (·.touches node)) edge = bundleWeight edges edge := by
  have hfilter : (edges.filter (·.touches node)).filter edge.parallel =
      edges.filter edge.parallel := by
    rw [List.filter_filter, Edge.parallel_eq_leads]
    apply List.filter_congr
    intro other _
    by_cases hleads : other.leads edge.source edge.target = true
    · simp [hleads, Edge.touches_of_leads hleads (touches_iff.mp htouches)]
    · simp [hleads]
  rw [bundleWeight, bundleWeight, hfilter]

/-- The weights of a bundle are added to that of its first edge. -/
theorem bundleWeight_of_first {before rest : List (Edge W)} {edge : Edge W}
    (hfirst : before.any (Edge.leads edge.source edge.target) = false) :
    bundleWeight (before ++ edge :: rest) edge =
      ((rest.filter (Edge.leads edge.source edge.target)).map Edge.weight).foldl (· + ·)
        edge.weight := by
  have hbefore : before.filter (Edge.leads edge.source edge.target) = [] := by
    simpa [List.filter_eq_nil_iff] using hfirst
  rw [bundleWeight, Edge.parallel_eq_leads, List.filter_append, hbefore, List.nil_append,
    List.filter_cons_of_pos (by simp), List.foldl_map]

/-- What is left of an edge between those before it and those after it. -/
theorem joined?_append (node : Nat) (before : List (Edge W)) (edge : Edge W)
    (rest : List (Edge W)) :
    joined? node (before ++ edge :: rest) before.length =
      if edge.touches node then
        if before.any edge.parallel then none
        else some { edge with weight := bundleWeight (before ++ edge :: rest) edge }
      else some edge := by
  have hget : (before ++ edge :: rest)[before.length]? = some edge := by simp
  have hdrop : (before ++ edge :: rest).drop (before.length + 1) = rest := by
    rw [List.append_cons, List.drop_left' (by simp)]
  rw [joined?, hget, Option.bind_eq_bind, Option.bind_some, List.take_left, hdrop,
    Edge.parallel_eq_leads]
  by_cases htouches : edge.touches node = true
  · have hends := touches_iff.mp htouches
    rw [if_neg (by tauto), if_pos htouches]
    split
    · rfl
    · next hfirst => rw [bundleWeight_of_first (by simpa using hfirst)]
  · have hends := mt touches_iff.mpr htouches
    rw [if_pos (by tauto), if_neg htouches]

omit [Weight W] in
theorem parallel_congr {edge other : Edge W} (hparallel : edge.parallel other = true) :
    edge.parallel = other.parallel := by
  rw [Edge.parallel_eq_leads, Edge.leads_iff] at hparallel
  rw [Edge.parallel_eq_leads, Edge.parallel_eq_leads, hparallel.1, hparallel.2]

/-- Going through the edges from the left keeps what is left of each of them.  The edges
kept so far stand for all edges before. -/
theorem keepFirst_eq_joined {node : Nat} (before edges : List (Edge W)) {kept : List (Edge W)}
    (hkept : ∀ edge : Edge W, edge.touches node = true →
      kept.any edge.parallel = before.any edge.parallel) :
    keepFirst node ((before ++ edges).filter (·.touches node)) kept edges =
      (List.range' before.length edges.length).filterMap (joined? node (before ++ edges)) := by
  induction edges generalizing before kept with
  | nil => rfl
  | cons edge rest ih =>
      have happend : before ++ edge :: rest = (before ++ [edge]) ++ rest := by simp
      have hlength : before.length + 1 = (before ++ [edge]).length := by simp
      rw [keepFirst, List.length_cons, List.range'_succ, List.filterMap_cons,
        joined?_append node before edge rest]
      by_cases htouches : edge.touches node = true
      · rw [if_pos htouches, if_pos htouches, hkept edge htouches,
          bundleWeight_filter_touches htouches]
        by_cases hbefore : before.any edge.parallel = true
        · rw [if_pos hbefore, if_pos hbefore, happend, hlength, ih]
          intro other hother
          rw [hkept other hother, List.any_append]
          by_cases hparallel : other.parallel edge = true
          · rw [parallel_congr hparallel, hbefore, Bool.true_or]
          · simp [hparallel]
        · rw [if_neg hbefore, if_neg hbefore, happend, hlength, ih]
          intro other hother
          rw [List.any_cons, hkept other hother, List.any_append, Bool.or_comm]
          simp
      · rw [if_neg htouches, if_neg htouches, happend, hlength, ih]
        intro other hother
        have hparallel : ¬other.parallel edge = true := by
          intro hparallel
          rw [Edge.parallel_eq_leads] at hparallel
          exact htouches (Edge.touches_of_leads hparallel (touches_iff.mp hother))
        simp [hkept other hother, hparallel]

/-- Joining parallel edges, one edge at a time by its number. -/
theorem bundleAt_eq_joined (node : Nat) (edges : List (Edge W)) :
    bundleAt node edges = (List.range edges.length).filterMap (joined? node edges) := by
  rw [bundleAt, List.range_eq_range']
  exact keepFirst_eq_joined [] edges fun _ _ => rfl

/-! ## Moving the ends -/

/-- An edge that does not lead between the two parts has at most one end at them. -/
theorem Fusion.redirect_eq_relocate {fusion : Fusion W} {edge : Edge W}
    (hne : edge.source ≠ edge.target) (hjoins : edge.joins fusion.left fusion.right = false) :
    fusion.redirect edge = fusion.relocate edge := by
  simp only [Edge.joins, Bool.or_eq_false_iff, Bool.and_eq_false_iff, beq_eq_false_iff_ne]
    at hjoins
  rw [Fusion.redirect, Fusion.relocate]
  by_cases hleft : edge.source = fusion.left
  · have htarget : edge.target ≠ fusion.left ∧ edge.target ≠ fusion.right := by grind
    simp only [Fusion.move, if_pos hleft, if_neg htarget.1, if_neg htarget.2]
  by_cases hright : edge.source = fusion.right
  · have htarget : edge.target ≠ fusion.left ∧ edge.target ≠ fusion.right := by grind
    simp only [Fusion.move, if_neg hleft, if_pos hright, if_neg htarget.1, if_neg htarget.2]
  · simp only [Fusion.move, if_neg hleft, if_neg hright]
    split_ifs <;> rfl

/-- A merge leaves what its plain definition says. -/
theorem Fusion.apply_eq_plain {fusion : Fusion W} {edges : List (Edge W)}
    (hends : ∀ edge ∈ edges, edge.source ≠ edge.target) :
    fusion.apply edges = fusion.plain edges := by
  have hmoved : fusion.moved edges = (edges.filter fun edge =>
      !(edge.leads fusion.left fusion.right || edge.leads fusion.right fusion.left)).map
        fusion.relocate := by
    apply List.map_congr_left
    intro edge hedge
    obtain ⟨hmem, hjoins⟩ := List.mem_filter.mp hedge
    exact Fusion.redirect_eq_relocate (hends edge hmem) (by simpa using hjoins)
  rw [Fusion.apply_eq_bundleAt, bundleAt_eq_joined, hmoved]
  rfl

end AverageLinkage.Clusters
