import Mathlib
import AverageLinkage.Proofs.DoubleBits
import AverageLinkage.Proofs.MergeRecords
import AverageLinkage.Proofs.Origins

/-!
# Heights and the weights of merges

The height of an inner node is the weight of its merge, or zero if that is negative, and
every leaf has the placeholder.  The placeholder also stands for a weight that is infinite.
No weight of the graph is, and no weight between two items, but the sum of finite weights may
be: then the node of a merge has the height of a leaf.
-/

namespace AverageLinkage

/-! ## The weight above all others -/

namespace Binary64

open Float.Model (UnpackedFloat Format)

theorem unpack_infinity : (infinity false).toModel.unpack = .infinity .positive := rfl

/-- Doubles with the same parts are the same. -/
theorem eq_of_unpack_eq {left right : Float}
    (hparts : left.toModel.unpack = right.toModel.unpack) : left = right := by
  have hbits : left.toModel.toBits.toBitVec = right.toModel.toBits.toBitVec := by
    rw [← pack_unpack left.toModel.valid, ← pack_unpack right.toModel.valid]
    exact congrArg (UnpackedFloat.pack Format.binary64) hparts
  exact eq_of_toBits_eq (UInt64.toBitVec_inj.mp hbits)

/-- Positive infinity is the only weight above all others. -/
theorem isTop_iff {weight : Float} :
    Weight.isTop weight = true ↔ weight = infinity false := by
  have hparts : Weight.isTop weight = true ↔ weight.toModel.unpack = .infinity .positive := by
    change weight.toModel.unpack.beq (infinity false).toModel.unpack = true ↔ _
    rw [unpack_infinity, UnpackedFloat.beq]
    cases weight.toModel.unpack with
    | notANumber => simp [UnpackedFloat.compare]
    | infinity sign =>
        cases sign with
        | negative => simp [UnpackedFloat.compare]
        | positive => exact iff_of_true rfl rfl
    | zero sign => simp [UnpackedFloat.compare]
    | finite sign _ _ _ => cases sign <;> simp [UnpackedFloat.compare]
  rw [hparts, ← unpack_infinity]
  exact ⟨eq_of_unpack_eq, congrArg fun weight : Float => weight.toModel.unpack⟩

theorem ne_infinity_of_isFinite {weight : Float} (hfinite : weight.isFinite = true) :
    weight ≠ infinity false := by
  rintro rfl
  exact Bool.false_ne_true hfinite

end Binary64

/-! ## Heights -/

section

variable {W : Type} [Weight W] {graph : Graph W} {linkage : Linkage W}

theorem Graph.Clustered.height_leaf (hlinkage : graph.Clustered linkage) {id : Nat}
    (hid : id < graph.nodeCount) :
    (linkage.forest.node? id).map MergeForest.Node.height =
      some (MergeForest.placeholder linkage.merges) := by
  rw [hlinkage.forest_eq, MergeForest.node?_ofClusters_of_lt _ _ hid]
  rfl

/-- The height of a merge by its weight and by the height of the leaves. -/
theorem Graph.Clustered.height_inner (hlinkage : graph.Clustered linkage) {index : Nat}
    {merge : Merge W} (hmerge : linkage.merges[index]? = some merge) :
    (linkage.forest.node? (graph.nodeCount + index)).map MergeForest.Node.height =
      some (MergeForest.mergeHeight (MergeForest.placeholder linkage.merges) merge.height) := by
  have hrecord : linkage.clusters.merges[index]? = some merge := hmerge
  rw [hlinkage.forest_eq,
    MergeForest.node?_ofClusters_of_le _ _ (Nat.le_add_right graph.nodeCount index),
    Nat.add_sub_cancel_left, hrecord]
  rfl

/-- A live edge between two items is an edge of the graph. -/
theorem Clusters.mem_edges_of_items (hgraph : graph.Proper) {clusters : Clusters W}
    (hreached : Clusters.Reached (.ofGraph graph) clusters) {edge : Edge W}
    (hedge : edge ∈ clusters.edges) (hsource : edge.source < graph.nodeCount)
    (htarget : edge.target < graph.nodeCount) : edge ∈ graph.edges := by
  obtain ⟨traced, htraced⟩ := Clusters.exists_traced_of_reached hgraph hreached
  rw [← htraced.edges_eq] at hedge
  obtain ⟨⟨_, origin⟩, hmem, rfl⟩ := List.mem_map.mp hedge
  exact List.mem_of_getElem? (htraced.own _ origin hmem hsource htarget)

end

/-- The heights in a forest of a graph with finite weights.  Leaves have the placeholder.  An
inner node has the weight that its merge took, or zero if that is negative, unless the weight
is infinite; then it has the placeholder, too.  This never happens to a merge of two items. -/
theorem Graph.cluster_heights_of_finite {graph : Graph Float} {linkage : Linkage Float}
    (hfinite : ∀ edge ∈ graph.edges, edge.weight.isFinite = true)
    (hrun : graph.cluster = .ok linkage) :
    (∀ id < graph.nodeCount, (linkage.forest.node? id).map MergeForest.Node.height =
      some (linkage.merges[0]?.elim 1 fun first => first.height + 1)) ∧
    ∀ index merge, linkage.merges[index]? = some merge →
      (∃ state edge, Clusters.mergeTimes index (.ofGraph graph) = .ok state ∧
        Clusters.heaviest? state.edges = some edge ∧ merge.height = edge.weight) ∧
      (merge.height ≠ Binary64.infinity false →
        (linkage.forest.node? (graph.nodeCount + index)).map MergeForest.Node.height =
          some (if merge.height < 0 then 0 else merge.height)) ∧
      (merge.height = Binary64.infinity false →
        (linkage.forest.node? (graph.nodeCount + index)).map MergeForest.Node.height =
          some (linkage.merges[0]?.elim 1 fun first => first.height + 1)) ∧
      (merge.left < graph.nodeCount → merge.right < graph.nodeCount →
        merge.height ≠ Binary64.infinity false) := by
  obtain ⟨hgraph, hlinkage⟩ := Graph.proper_of_cluster hrun
  have hplaceholder : MergeForest.placeholder linkage.merges =
      linkage.merges[0]?.elim 1 fun first => first.height + 1 := by
    rw [MergeForest.placeholder]
    cases linkage.merges[0]? <;> rfl
  rw [← hplaceholder]
  refine ⟨fun id hid => hlinkage.height_leaf hid, ?_⟩
  intro index merge hmerge
  rw [hlinkage.height_inner hmerge, MergeForest.mergeHeight]
  obtain ⟨state, edge, hstate, hedge, _, _, _, rfl⟩ := hlinkage.exists_state hgraph hmerge
  refine ⟨⟨state, edge, hstate, hedge, rfl⟩, ?_, ?_, ?_⟩
  · intro hbelow
    rw [if_neg (mt Binary64.isTop_iff.mp hbelow)]
  · intro htop
    have hnonneg : ¬Binary64.infinity false < 0 := by decide +kernel
    rw [if_neg (htop ▸ hnonneg), if_pos (Binary64.isTop_iff.mpr htop)]
  · -- Only edges that a merge has moved are sums, and these do not lead between two items.
    intro hsource htarget
    have hmem := Clusters.mem_of_heaviest? hedge
    exact Binary64.ne_infinity_of_isFinite (hfinite edge
      (Clusters.mem_edges_of_items hgraph ⟨index, hstate⟩ hmem hsource htarget))

/-- The second merge takes a negative weight. -/
def Graph.sinking : Graph Float :=
  { nodeCount := 3
    edges := [{ source := 0, target := 1, weight := 2 },
      { source := 1, target := 2, weight := -1 }] }

theorem Graph.cluster_heights_of_finite_sinking :
    (∀ edge ∈ Graph.sinking.edges, edge.weight.isFinite = true) ∧
      ∃ linkage, Graph.sinking.cluster = .ok linkage ∧
        linkage.merges[1]? = some { node := 4, left := 3, right := 2, height := -0.5 } ∧
        (linkage.forest.node? 0).map MergeForest.Node.height = some 3 ∧
        (linkage.forest.node? 4).map MergeForest.Node.height = some 0 := by
  have hfinite : ∀ edge ∈ Graph.sinking.edges, edge.weight.isFinite = true := by
    decide +kernel
  have hmerges : Graph.sinking.cluster.toOption.map (fun linkage => linkage.merges) =
      some #[{ node := 3, left := 0, right := 1, height := 2 },
        { node := 4, left := 3, right := 2, height := -0.5 }] := by
    decide +kernel
  obtain ⟨linkage, hrun, hlist⟩ := exists_ok_of_toOption hmerges
  have hlast : linkage.merges[1]? =
      some { node := 4, left := 3, right := 2, height := -0.5 } := by
    rw [hlist]
    rfl
  obtain ⟨hleaves, hinner⟩ := Graph.cluster_heights_of_finite hfinite hrun
  refine ⟨hfinite, linkage, hrun, hlast, ?_, ?_⟩
  · rw [hleaves 0 (by decide), hlist]
    decide +kernel
  · have hheight := (hinner 1 _ hlast).2.1 (by decide +kernel)
    rw [if_pos (by decide +kernel)] at hheight
    exact hheight

/-- Four edges side by side, whose weights are finite and their sum is not. -/
def Graph.overflowing : Graph Float :=
  { nodeCount := 3
    edges := { source := 0, target := 1, weight := 1e308 } ::
      List.replicate 4 { source := 0, target := 2, weight := 1e308 } }

/-- All weights are finite, but the second merge takes an infinite one.  Its node has the
height of a leaf in place of that weight. -/
theorem Graph.cluster_height_overflowing :
    (∀ edge ∈ Graph.overflowing.edges, edge.weight.isFinite = true) ∧
      ∃ linkage, Graph.overflowing.cluster = .ok linkage ∧
        (linkage.merges[1]?).map Merge.height = some (Binary64.infinity false) ∧
        ¬Binary64.infinity false < 0 ∧
        (linkage.forest.node? 4).map MergeForest.Node.height ≠ some (Binary64.infinity false) ∧
        (linkage.forest.node? 4).map MergeForest.Node.height =
          (linkage.forest.node? 0).map MergeForest.Node.height := by
  have hview : Graph.overflowing.cluster.toOption.map (fun linkage =>
      ((linkage.merges[1]?).map Merge.height,
        (linkage.forest.node? 0).map MergeForest.Node.height,
        (linkage.forest.node? 4).map MergeForest.Node.height)) =
      some (some (Binary64.infinity false), some 1e308, some 1e308) := by
    decide +kernel
  obtain ⟨linkage, hrun, hvalues⟩ := exists_ok_of_toOption hview
  obtain ⟨hraw, hheights⟩ := Prod.mk.inj hvalues
  obtain ⟨hleaf, hnode⟩ := Prod.mk.inj hheights
  refine ⟨by decide +kernel, linkage, hrun, hraw, by decide +kernel, ?_, hnode.trans hleaf.symm⟩
  rw [hnode]
  decide +kernel

end AverageLinkage
