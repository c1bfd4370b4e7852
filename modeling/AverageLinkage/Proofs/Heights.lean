import Mathlib
import AverageLinkage.Proofs.ForestShape
import AverageLinkage.Proofs.MovedEdges

/-!
# Heights of merges

With exact weights that are not negative and without parallel edges, no merge is higher
than an earlier one.  The weight of a moved edge is an average of at most two weights, in
which a missing one counts as zero, so a merge leaves no edge that is heavier than the one
it was made along.  In the forest the heights therefore fall from the leaves to the roots.
-/

namespace AverageLinkage

namespace Clusters

/-! ## Averages -/

/-- What leads from one cluster to another one is a single weight at most. -/
theorem Simple.sum_weightsBetween_mem {edges : List (Edge ℚ)} (hsimple : Simple edges)
    {bound : ℚ} (hbound : 0 ≤ bound) (hweights : ∀ edge ∈ edges, edge.weight ∈ Set.Icc 0 bound)
    (source target : Nat) : (weightsBetween source target edges).sum ∈ Set.Icc 0 bound := by
  by_cases hnil : weightsBetween source target edges = []
  · rw [hnil, List.sum_nil]
    exact ⟨le_rfl, hbound⟩
  · obtain ⟨edge, hedge, rfl, rfl⟩ := weightsBetween_ne_nil_iff.mp hnil
    rw [hsimple.weightsBetween_eq hedge, List.sum_singleton]
    exact hweights edge hedge

/-- The shares of a fusion make an average. -/
structure Fusion.Averages (fusion : Fusion ℚ) : Prop where
  leftShare_nonneg : 0 ≤ fusion.leftShare
  rightShare_nonneg : 0 ≤ fusion.rightShare
  sum_shares : fusion.leftShare + fusion.rightShare = 1

/-- The shares are the populations of the parts over their sum. -/
theorem averages_fusion (clusters : Clusters ℚ) (edge : Edge ℚ) :
    (clusters.fusion edge).Averages := by
  have hleft : (clusters.fusion edge).leftShare = clusters.populationOf edge.source /
      (clusters.populationOf edge.source + clusters.populationOf edge.target : ℚ) := by
    simp [fusion]
  have hright : (clusters.fusion edge).rightShare = 1 - (clusters.fusion edge).leftShare := rfl
  refine ⟨?_, ?_, ?_⟩
  · rw [hleft]
    positivity
  · rw [hright, hleft, sub_nonneg]
    apply div_le_one_of_le₀
    · simp
    · positivity
  · rw [hright]
    ring

/-- An average stays within the bounds of the two sums it is taken from. -/
theorem Fusion.Averages.sum_mem {fusion : Fusion ℚ} (haverages : fusion.Averages) {bound : ℚ}
    {left right : List ℚ} (hleft : left.sum ∈ Set.Icc 0 bound)
    (hright : right.sum ∈ Set.Icc 0 bound) :
    (left.map (· * fusion.leftShare) ++ right.map (· * fusion.rightShare)).sum ∈
      Set.Icc 0 bound := by
  have hleftShare := haverages.leftShare_nonneg
  have hrightShare := haverages.rightShare_nonneg
  rw [List.sum_append, List.sum_map_mul_right, List.sum_map_mul_right, List.map_id', List.map_id']
  constructor
  · exact add_nonneg (mul_nonneg hleft.1 hleftShare) (mul_nonneg hright.1 hrightShare)
  · calc left.sum * fusion.leftShare + right.sum * fusion.rightShare
        ≤ bound * fusion.leftShare + bound * fusion.rightShare :=
          add_le_add (mul_le_mul_of_nonneg_right hleft.2 hleftShare)
            (mul_le_mul_of_nonneg_right hright.2 hrightShare)
      _ = bound := by rw [← mul_add, haverages.sum_shares, mul_one]

/-- A merge leaves no edge that is heavier than all edges before it. -/
theorem Fusion.Fits.weight_apply_mem {fusion : Fusion ℚ} {edges : List (Edge ℚ)}
    (hfits : fusion.Fits edges) (haverages : fusion.Averages) (hsimple : Simple edges) {bound : ℚ}
    (hbound : 0 ≤ bound) (hweights : ∀ edge ∈ edges, edge.weight ∈ Set.Icc 0 bound) :
    ∀ edge ∈ fusion.apply edges, edge.weight ∈ Set.Icc 0 bound := by
  intro edge hedge
  have hsum : edge.weight = (weightsBetween edge.source edge.target (fusion.moved edges)).sum := by
    have hbundle :=
      weightsBetween_bundleAt fusion.node edge.source edge.target (fusion.moved edges)
    rw [← Fusion.apply_eq_bundleAt, hsimple.apply.weightsBetween_eq hedge] at hbundle
    split at hbundle
    · rw [← sum_bundle, ← hbundle, List.sum_singleton]
    · rw [← hbundle, List.sum_singleton]
  have hmem := fun source target =>
    hsimple.sum_weightsBetween_mem hbound hweights source target
  rw [hsum]
  rcases hfits.weightsBetween_moved_cases edge.source edge.target with
    hnil | ⟨_, _, _, _, hperm⟩ | hkept
  · rw [hnil, List.sum_nil]
    exact ⟨le_rfl, hbound⟩
  · rw [hperm.sum_eq]
    exact haverages.sum_mem (hmem _ _) (hmem _ _)
  · rw [hkept]
    exact hmem _ _

/-! ## Descending runs -/

/-- The merges so far never rise, and no edge that is left would rise above one of them. -/
structure Descending (clusters : Clusters ℚ) : Prop where
  weight_nonneg : ∀ edge ∈ clusters.edges, 0 ≤ edge.weight
  weight_le : ∀ edge ∈ clusters.edges, ∀ merge ∈ clusters.merges, edge.weight ≤ merge.height
  height_nonneg : ∀ merge ∈ clusters.merges, 0 ≤ merge.height
  heights : clusters.merges.toList.Pairwise fun earlier later => later.height ≤ earlier.height

theorem descending_ofGraph {graph : Graph ℚ} (hweights : ∀ edge ∈ graph.edges, 0 ≤ edge.weight) :
    Descending (ofGraph graph) := by
  refine ⟨hweights, ?_, ?_, ?_⟩
  all_goals simp [ofGraph]

/-- A merge takes the heaviest edge, and the edges it leaves are averages of edges that were not
heavier. -/
theorem Descending.merge {clusters : Clusters ℚ} (hdescending : Descending clusters)
    {edge : Edge ℚ} (hheaviest : heaviest? clusters.edges = some edge)
    (hfits : (clusters.fusion edge).Fits clusters.edges) (hsimple : Simple clusters.edges) :
    Descending (clusters.merge edge) := by
  have hedge := mem_of_heaviest? hheaviest
  have hnonneg := hdescending.weight_nonneg edge hedge
  have hmerges : (clusters.merge edge).merges = clusters.merges.push
      { node := clusters.parent.size, left := edge.source, right := edge.target,
        height := edge.weight } := rfl
  have hweights : ∀ other ∈ (clusters.merge edge).edges, other.weight ∈ Set.Icc 0 edge.weight := by
    apply hfits.weight_apply_mem (averages_fusion clusters edge) hsimple hnonneg
    intro other hother
    exact ⟨hdescending.weight_nonneg other hother, weight_le_of_heaviest? hheaviest other hother⟩
  refine ⟨fun other hother => (hweights other hother).1, ?_, ?_, ?_⟩
  · intro other hother merge hmerge
    rcases Array.mem_push.mp hmerge with hearlier | rfl
    · exact (hweights other hother).2.trans (hdescending.weight_le edge hedge merge hearlier)
    · exact (hweights other hother).2
  · intro merge hmerge
    rcases Array.mem_push.mp hmerge with hearlier | rfl
    · exact hdescending.height_nonneg merge hearlier
    · exact hnonneg
  · rw [hmerges, Array.toList_push, List.pairwise_append]
    refine ⟨hdescending.heights, List.pairwise_singleton _ _, ?_⟩
    intro earlier hearlier later hlater
    obtain rfl := List.mem_singleton.mp hlater
    exact hdescending.weight_le edge hedge earlier (Array.mem_toList_iff.mp hearlier)

/-- The merges of a whole run never rise. -/
theorem descending_of_reached {graph : Graph ℚ} (hgraph : graph.Proper)
    (hsimple : Simple graph.edges) (hweights : ∀ edge ∈ graph.edges, 0 ≤ edge.weight)
    {clusters : Clusters ℚ} (hreached : Reached (ofGraph graph) clusters) :
    Descending clusters := by
  apply Reached.induction _ (descending_ofGraph hweights) hreached
  intro clusters edge hreached hdescending hheaviest
  exact hdescending.merge hheaviest
    ((hreached.invariant hgraph).fits hgraph (mem_of_heaviest? hheaviest))
    (simple_of_reached hsimple hreached)

/-! ## Heights in the forest -/

open MergeForest (ofClusters inner placeholder)

variable {leafCount : Nat} {clusters : Clusters ℚ}

/-- The node of a merge. -/
theorem Recorded.node?_merge (hrec : Recorded leafCount clusters) (componentCount : Nat)
    {merge : Merge ℚ} (hmerge : merge ∈ clusters.merges) :
    (ofClusters leafCount componentCount clusters).node? merge.node =
      some (inner clusters merge) := by
  obtain ⟨index, hindex⟩ := Array.mem_iff_getElem?.mp hmerge
  have hnode := hrec.node_eq index merge hindex
  rw [MergeForest.node?_ofClusters_of_le componentCount clusters (by omega), hnode,
    Nat.add_sub_cancel_left, hindex, Option.map_some]

/-- Merges with higher numbers are not higher. -/
theorem Descending.height_le (hdescending : Descending clusters)
    (hrec : Recorded leafCount clusters) {earlier later : Merge ℚ}
    (hearlier : earlier ∈ clusters.merges) (hlater : later ∈ clusters.merges)
    (hnode : earlier.node ≤ later.node) : later.height ≤ earlier.height := by
  obtain ⟨first, hfirst⟩ := Array.mem_iff_getElem?.mp hearlier
  obtain ⟨second, hsecond⟩ := Array.mem_iff_getElem?.mp hlater
  have hindex : first ≤ second := by
    rw [hrec.node_eq first earlier hfirst, hrec.node_eq second later hsecond] at hnode
    omega
  rcases hindex.lt_or_eq with hlt | rfl
  · obtain ⟨hfirstLt, rfl⟩ := Array.getElem?_eq_some_iff.mp hfirst
    obtain ⟨hsecondLt, rfl⟩ := Array.getElem?_eq_some_iff.mp hsecond
    exact List.pairwise_iff_getElem.mp hdescending.heights first second hfirstLt hsecondLt hlt
  · rw [Option.some.inj (hfirst.symm.trans hsecond)]

theorem Descending.height_inner (hdescending : Descending clusters) {merge : Merge ℚ}
    (hmerge : merge ∈ clusters.merges) : (inner clusters merge).height = merge.height := by
  simp [MergeForest.inner, MergeForest.mergeHeight, (hdescending.height_nonneg merge hmerge).not_gt]

/-- The leaves stand above all merges. -/
theorem Descending.height_le_placeholder (hdescending : Descending clusters)
    (hrec : Recorded leafCount clusters) {merge : Merge ℚ} (hmerge : merge ∈ clusters.merges) :
    merge.height ≤ placeholder clusters.merges := by
  obtain ⟨index, hindex⟩ := Array.mem_iff_getElem?.mp hmerge
  have hsize : 0 < clusters.merges.size :=
    (Nat.zero_le index).trans_lt (Array.getElem?_eq_some_iff.mp hindex).1
  have hget := Array.getElem?_eq_getElem hsize
  have hfirst : clusters.merges[0].node ≤ merge.node := by
    rw [hrec.node_eq 0 _ hget, hrec.node_eq index merge hindex]
    omega
  have hle := hdescending.height_le hrec (Array.getElem_mem hsize) hmerge hfirst
  rw [placeholder, hget]
  exact hle.trans (le_add_of_nonneg_right zero_le_one)

/-- No part of a merge stands below the merge. -/
theorem Descending.height_le_part (hdescending : Descending clusters)
    (hrec : Recorded leafCount clusters) (componentCount : Nat) {merge : Merge ℚ}
    (hmerge : merge ∈ clusters.merges) {id : Nat} (hid : id < merge.node)
    {node : MergeForest.Node ℚ}
    (hnode : (ofClusters leafCount componentCount clusters).node? id = some node) :
    merge.height ≤ node.height := by
  obtain ⟨_, _, _, ⟨hleaf, _⟩ | ⟨part, hpart, rfl, _⟩⟩ := hrec.of_node? hnode
  · rw [MergeForest.node?_ofClusters_of_lt componentCount clusters hleaf] at hnode
    rw [← Option.some.inj hnode]
    exact hdescending.height_le_placeholder hrec hmerge
  · rw [hrec.node?_merge componentCount hpart] at hnode
    rw [← Option.some.inj hnode, hdescending.height_inner hpart]
    exact hdescending.height_le hrec hpart hmerge hid.le

end Clusters

/-- With exact weights, none of them negative, and at most one edge from any node to any
other one, the heights of the merges never rise.  So no node of the forest stands below its
parent; this includes the leaves with their placeholder. -/
theorem Graph.cluster_heights_descend {graph : Graph ℚ} {linkage : Linkage ℚ}
    (hrun : graph.cluster = .ok linkage) (hweights : ∀ edge ∈ graph.edges, 0 ≤ edge.weight)
    (honce : ∀ source target, (graph.edges.filter (Edge.leads source target)).length ≤ 1) :
    (linkage.merges.toList.Pairwise fun earlier later => later.height ≤ earlier.height) ∧
    ∀ id node, linkage.forest.node? id = some node →
      ∃ parent, linkage.forest.node? node.parent = some parent ∧ parent.height ≤ node.height := by
  obtain ⟨hgraph, hlinkage⟩ := Graph.proper_of_cluster hrun
  have hrec := (hlinkage.invariant hgraph).recorded
  have hsimple : Clusters.Simple graph.edges := by
    intro source target
    rw [Clusters.weightsBetween, List.length_map]
    exact honce source target
  have hdescending :=
    Clusters.descending_of_reached hgraph hsimple hweights hlinkage.reached
  refine ⟨hdescending.heights, ?_⟩
  intro id node hnode
  rw [hlinkage.forest_eq] at hnode ⊢
  have hparent := (hrec.of_node? hnode).2.1
  by_cases hroot : linkage.clusters.parentOf id = id
  · rw [hparent, hroot]
    exact ⟨node, hnode, le_rfl⟩
  · obtain ⟨merge, hmerge, hlink, _⟩ := hrec.part_of id hroot
    have hlt : id < merge.node := hlink ▸ (hrec.parentOf_bounds hroot).1
    refine ⟨_, hparent.trans hlink ▸ hrec.node?_merge _ hmerge, ?_⟩
    rw [hdescending.height_inner hmerge]
    exact hdescending.height_le_part hrec _ hmerge hlt hnode

/-- Edges of different weights in the two directions, edges in one direction only and an
edge of no weight. -/
theorem Graph.cluster_heights_descend_lopsided :
    let graph : Graph ℚ := ⟨5, [⟨1, 0, 1⟩, ⟨0, 1, 3⟩, ⟨1, 2, 2⟩, ⟨2, 0, 3⟩, ⟨4, 3, 0⟩]⟩
    (∀ edge ∈ graph.edges, 0 ≤ edge.weight) ∧
    (∀ source target, (graph.edges.filter (Edge.leads source target)).length ≤ 1) ∧
    ∃ linkage, graph.cluster = .ok linkage ∧
      linkage.merges.toList.map Merge.height = [3, 3 / 2, 0] ∧
      (linkage.merges.toList.Pairwise fun earlier later => later.height ≤ earlier.height) ∧
      ∀ id node, linkage.forest.node? id = some node →
        ∃ parent, linkage.forest.node? node.parent = some parent ∧
          parent.height ≤ node.height := by
  intro graph
  have hweights : ∀ edge ∈ graph.edges, 0 ≤ edge.weight := by decide +kernel
  have honce : ∀ source target, (graph.edges.filter (Edge.leads source target)).length ≤ 1 := by
    intro source target
    simp only [graph, List.filter_cons, Edge.leads_iff]
    split_ifs <;> first | omega | simp
  have hresult : graph.cluster.toOption.map
      (fun linkage => linkage.merges.toList.map Merge.height) = some [3, 3 / 2, 0] := by
    decide +kernel
  obtain ⟨linkage, hrun, hheights⟩ := exists_ok_of_toOption hresult
  obtain ⟨hdescend, hforest⟩ := Graph.cluster_heights_descend hrun hweights honce
  exact ⟨hweights, honce, linkage, hrun, hheights, hdescend, hforest⟩

end AverageLinkage
