import Mathlib
import AverageLinkage.Proofs.AffinityEdges
import AverageLinkage.Proofs.CheckedAccess
import AverageLinkage.Proofs.Labelling
import AverageLinkage.Proofs.StageComposition

/-!
# Growing thresholds

A kernel with a larger threshold accepts every distance that it accepted before, so the
affinity graph of a table only gains edges.  More edges connect more nodes: components grow
together, there are fewer of them, and clustering makes more merges.
-/

namespace AverageLinkage

/-! ## The order of doubles -/

namespace Binary64

open Float.Model (UnpackedFloat)

theorem isLE_then_compare_iff {exponent exponent' : ℤ} {significand significand' : ℕ} :
    ((compare exponent exponent').then (compare significand significand')).isLE = true ↔
      exponent < exponent' ∨ exponent = exponent' ∧ significand ≤ significand' := by
  rw [Ordering.isLE_then_iff_or, compare_lt_iff_lt, compare_eq_iff_eq, Nat.isLE_compare]

theorem isGE_then_compare_iff {exponent exponent' : ℤ} {significand significand' : ℕ} :
    ((compare exponent exponent').then (compare significand significand')).isGE = true ↔
      exponent' < exponent ∨ exponent = exponent' ∧ significand' ≤ significand := by
  rw [← Ordering.isLE_swap, Ordering.swap_then, Int.compare_swap, Nat.compare_swap,
    isLE_then_compare_iff, eq_comm]

/-- Two numbers are compared by their places. -/
theorem unpacked_le_iff {left right : UnpackedFloat} :
    left.le right = true ↔
      left ≠ .notANumber ∧ right ≠ .notANumber ∧ rank left ≤ rank right := by
  rcases left with (_ | _) | _ | _ | ⟨_ | _, _, _, _⟩ <;>
  rcases right with (_ | _) | _ | _ | ⟨_ | _, _, _, _⟩ <;>
    simp [UnpackedFloat.le, UnpackedFloat.compare, rank, signOf, Prod.Lex.toLex_le_toLex,
      isLE_then_compare_iff, isGE_then_compare_iff]
  -- what is left are two infinities, whose signs are compared
  all_goals rfl

theorem le_iff_rank_le {left right : Float} :
    left ≤ right ↔ left.toModel.unpack ≠ .notANumber ∧ right.toModel.unpack ≠ .notANumber ∧
      rank left.toModel.unpack ≤ rank right.toModel.unpack := by
  rw [← unpacked_le_iff]
  exact decide_eq_true_iff

protected theorem le_trans {low middle high : Float} (hlow : low ≤ middle)
    (hhigh : middle ≤ high) : low ≤ high := by
  rw [le_iff_rank_le] at hlow hhigh ⊢
  exact ⟨hlow.1, hhigh.2.1, hlow.2.2.trans hhigh.2.2⟩

end Binary64

/-! ## More edges -/

/-- Nodes that share a label of the first labelling share one of the second, for the same
number of nodes. -/
structure ComponentLabels.Refines (fine coarse : ComponentLabels) : Prop where
  size_labels : fine.labels.size = coarse.labels.size
  label?_eq : ∀ left right, fine.label? left = fine.label? right →
    coarse.label? left = coarse.label? right

namespace Graph

variable {W : Type} {graph wider : Graph W}

/-- Further edges separate no nodes. -/
theorem Connected.mono (hedges : graph.edges ⊆ wider.edges) {left right : Nat}
    (hconnected : graph.Connected left right) : wider.Connected left right := by
  refine Relation.EqvGen.mono ?_ _ _ hconnected
  rintro _ _ ⟨edge, hedge, hends⟩
  exact ⟨edge, hedges hedge, hends⟩

theorem label?_components_of_le {node : Nat} (hnode : graph.nodeCount ≤ node) :
    graph.components.label? node = none := by
  rw [ComponentLabels.label?, Array.getElem?_eq_none_iff, size_labels_components]
  exact hnode

theorem label?_components_isSome (graph : Graph W) (node : Nat) :
    (graph.components.label? node).isSome = true ↔ node < graph.nodeCount := by
  simp [ComponentLabels.label?, size_labels_components]

/-- With more edges between the same nodes, components grow together. -/
theorem components_refines (hnodes : graph.nodeCount = wider.nodeCount)
    (hedges : graph.edges ⊆ wider.edges) (hrange : graph.InRange) (hwider : wider.InRange) :
    graph.components.Refines wider.components where
  size_labels := by rw [size_labels_components, size_labels_components, hnodes]
  label?_eq := by
    intro left right hlabel
    -- a node outside of the graph has no label, and then neither node has one
    have hsome := congrArg Option.isSome hlabel
    rw [Bool.eq_iff_iff, label?_components_isSome, label?_components_isSome] at hsome
    by_cases hleft : left < graph.nodeCount
    · have hright := hsome.mp hleft
      have hconnected := (label?_components_eq_iff hrange hleft hright).mp hlabel
      rw [hnodes] at hleft hright
      exact (label?_components_eq_iff hwider hleft hright).mpr (hconnected.mono hedges)
    · have hright := mt hsome.mpr hleft
      rw [hnodes, Nat.not_lt] at hleft hright
      rw [label?_components_of_le hleft, label?_components_of_le hright]

/-- With more edges between the same nodes, there are fewer components. -/
theorem count_components_antitone (hnodes : graph.nodeCount = wider.nodeCount)
    (hedges : graph.edges ⊆ wider.edges) (hrange : graph.InRange) (hwider : wider.InRange) :
    wider.components.count ≤ graph.components.count := by
  rw [count_components hrange, count_components hwider, ← hnodes]
  -- the node that stands for a component stands in the larger component that holds it
  have himage : (Finset.range graph.nodeCount).image wider.representative =
      ((Finset.range graph.nodeCount).image graph.representative).image wider.representative := by
    rw [Finset.image_image]
    apply Finset.image_congr
    intro node _
    exact (representative_eq_iff hwider).mpr ((connected_representative hrange node).mono hedges)
  rw [himage]
  exact Finset.card_image_le

end Graph

/-! ## Larger thresholds -/

namespace Kernel

variable {low high : Kernel}

/-- A larger threshold accepts more distances. -/
theorem accepts_mono (hle : low.maxDistance ≤ high.maxDistance) {distance : Float}
    (haccepts : low.accepts distance = true) : high.accepts distance = true := by
  simp only [accepts, Bool.and_eq_true, decide_eq_true_eq] at haccepts ⊢
  exact ⟨haccepts.1, Binary64.le_trans haccepts.2 hle⟩

section

variable [Exponential]

theorem pairEdges_sublist (hvariance : low.variance = high.variance)
    (hle : low.maxDistance ≤ high.maxDistance) (pair : Nat × Nat × Float) :
    (low.pairEdges pair).Sublist (high.pairEdges pair) := by
  obtain ⟨row, column, distance⟩ := pair
  simp only [pairEdges]
  by_cases haccepts : low.accepts distance = true
  · have haffinity : low.affinity distance = high.affinity distance := by
      rw [affinity, affinity, hvariance]
    rw [if_pos haccepts, if_pos (accepts_mono hle haccepts), haffinity]
  · rw [if_neg haccepts]
    exact List.nil_sublist _

/-- A larger threshold adds edges and keeps the order of the others. -/
theorem edges_graph_sublist (hvariance : low.variance = high.variance)
    (hle : low.maxDistance ≤ high.maxDistance) (table : DistanceTable) :
    (low.graph table).edges.Sublist (high.graph table).edges :=
  List.Sublist.flatMap_right _ fun pair _ => pairEdges_sublist hvariance hle pair

theorem proper_graph (kernel : Kernel) (table : DistanceTable) : (kernel.graph table).Proper := by
  intro edge hedge
  obtain ⟨row, column, _, hcolumn, hrow, _, _, hends⟩ := exists_pair_of_mem_edges hedge
  change edge.source ≠ edge.target ∧ edge.source < table.size ∧ edge.target < table.size
  omega

/-- A larger threshold, with the same variance and for every table and every exponential.  No
edge is lost or moved, components grow together, and there are not more of them.  Both graphs
have too many nodes, or both are clustered and the larger threshold makes at least as many
merges. -/
theorem graph_mono_maxDistance (hvariance : low.variance = high.variance)
    (hle : low.maxDistance ≤ high.maxDistance) (table : DistanceTable) :
    (low.graph table).edges.Sublist (high.graph table).edges ∧
      (∃ fine coarse, (low.graph table).components? = some fine ∧
        (high.graph table).components? = some coarse ∧ fine.Refines coarse ∧
        coarse.count ≤ fine.count) ∧
      (Linkage.idLimit < 2 * table.size ∧
          (low.graph table).cluster = .error (.capacityOverflow table.size) ∧
          (high.graph table).cluster = .error (.capacityOverflow table.size) ∨
        ∃ fewer more, (low.graph table).cluster = .ok fewer ∧
          (high.graph table).cluster = .ok more ∧ fewer.merges.size ≤ more.merges.size) := by
  have hsublist := edges_graph_sublist hvariance hle table
  have hlow := proper_graph low table
  have hhigh := proper_graph high table
  have hnodes : (low.graph table).nodeCount = (high.graph table).nodeCount := rfl
  have hcount := Graph.count_components_antitone hnodes hsublist.subset hlow.inRange hhigh.inRange
  refine ⟨hsublist, ⟨_, _, Graph.components?_eq hlow.inRange, Graph.components?_eq hhigh.inRange,
    Graph.components_refines hnodes hsublist.subset hlow.inRange hhigh.inRange, hcount⟩, ?_⟩
  rcases Nat.lt_or_ge Linkage.idLimit (2 * table.size) with hover | hfits
  · exact .inl ⟨hover, Graph.cluster_eq_of_lt hover, Graph.cluster_eq_of_lt hover⟩
  · obtain ⟨fewer, hfewer⟩ := Graph.exists_cluster_iff.mpr ⟨hfits, hlow⟩
    obtain ⟨more, hmore⟩ := Graph.exists_cluster_iff.mpr ⟨hfits, hhigh⟩
    refine .inr ⟨fewer, more, hfewer, hmore, ?_⟩
    rw [(Graph.proper_of_cluster hfewer).2.size_merges,
      (Graph.proper_of_cluster hmore).2.size_merges, ← hnodes]
    exact Nat.sub_le_sub_left hcount _

end

/-- Four items of which one pair is near.  Under an infinite threshold all pairs count but the
one at an infinite distance, and all items are connected. -/
theorem graph_mono_maxDistance_spread :
    DistanceTable.ofRows spreadRows = .ok ⟨spreadRows⟩ ∧ (1 : Float) ≤ 1 / 0 ∧
      (graph ⟨1, 3600⟩ ⟨spreadRows⟩).edgeCount = 2 ∧
      (graph ⟨1 / 0, 3600⟩ ⟨spreadRows⟩).edgeCount = 10 ∧
      (graph ⟨1, 3600⟩ ⟨spreadRows⟩).edges.Sublist (graph ⟨1 / 0, 3600⟩ ⟨spreadRows⟩).edges ∧
      ComponentLabels.Refines ⟨#[0, 0, 1, 2], 3⟩ ⟨#[0, 0, 0, 0], 1⟩ ∧
      ∃ fewer more, (graph ⟨1, 3600⟩ ⟨spreadRows⟩).cluster = .ok fewer ∧
        (graph ⟨1 / 0, 3600⟩ ⟨spreadRows⟩).cluster = .ok more ∧
        fewer.merges.size ≤ more.merges.size := by
  have hle : (1 : Float) ≤ 1 / 0 := by decide +kernel
  have hfine : (graph ⟨1, 3600⟩ ⟨spreadRows⟩).components? = some ⟨#[0, 0, 1, 2], 3⟩ := by
    decide +kernel
  have hcoarse : (graph ⟨1 / 0, 3600⟩ ⟨spreadRows⟩).components? = some ⟨#[0, 0, 0, 0], 1⟩ := by
    decide +kernel
  obtain ⟨hsublist, ⟨fine, coarse, hfine', hcoarse', hrefines, -⟩, hcluster⟩ :=
    @graph_mono_maxDistance ⟨1, 3600⟩ ⟨1 / 0, 3600⟩ _ rfl hle ⟨spreadRows⟩
  rw [hfine, Option.some.injEq] at hfine'
  rw [hcoarse, Option.some.injEq] at hcoarse'
  subst hfine' hcoarse'
  refine ⟨rfl, hle, rfl, rfl, hsublist, hrefines, ?_⟩
  rcases hcluster with ⟨hover, -⟩ | hmerges
  · exact absurd hover (by decide)
  · exact hmerges

end Kernel

end AverageLinkage
