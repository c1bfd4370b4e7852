import Mathlib
import AverageLinkage.Proofs.ForestShape
import AverageLinkage.Proofs.MovedEdges

/-!
# The order of the edges

Two graphs that list the same pairs in different orders lead to the same forest, as long as
no merge has to choose between two pairs of clusters.  The two runs go side by side.  Their
edges differ in order only, and their merges only in which part is called the left one:
where one run meets an edge first, the other may meet the edge that leads back.
-/

namespace AverageLinkage

variable {W : Type}

/-- A merge with the lower one of its parts on the left. -/
def Merge.sorted (merge : Merge W) : Merge W :=
  { merge with left := min merge.left merge.right, right := max merge.left merge.right }

namespace Clusters

/-! ## States that show the same forest -/

/-- Two states with the same edges up to their order and with the same merges up to the
order of their two parts. -/
structure Alike (clusters other : Clusters W) : Prop where
  edges_perm : clusters.edges.Perm other.edges
  parent_eq : clusters.parent = other.parent
  population_eq : clusters.population = other.population
  merges_eq : clusters.merges.map Merge.sorted = other.merges.map Merge.sorted

theorem Alike.trans {clusters middle other : Clusters W} (hfirst : Alike clusters middle)
    (hsecond : Alike middle other) : Alike clusters other :=
  ⟨hfirst.edges_perm.trans hsecond.edges_perm, hfirst.parent_eq.trans hsecond.parent_eq,
    hfirst.population_eq.trans hsecond.population_eq, hfirst.merges_eq.trans hsecond.merges_eq⟩

/-- Graphs with the same edges in another order start alike. -/
theorem alike_ofGraph {graph other : Graph W} (hnodes : other.nodeCount = graph.nodeCount)
    (hedges : graph.edges.Perm other.edges) : Alike (ofGraph graph) (ofGraph other) := by
  refine ⟨hedges, ?_, ?_, rfl⟩
  · rw [ofGraph, ofGraph, hnodes]
  · rw [ofGraph, ofGraph, hnodes]

theorem Alike.current_eq {clusters other : Clusters W} (halike : Alike clusters other) :
    clusters.current = other.current := by
  ext id
  rw [mem_current, mem_current, parentOf, parentOf, halike.parent_eq]

section

variable [Weight W]

theorem placeholder_sorted (merges : Array (Merge W)) :
    MergeForest.placeholder (merges.map Merge.sorted) = MergeForest.placeholder merges := by
  rw [MergeForest.placeholder, MergeForest.placeholder, Array.getElem?_map]
  cases merges[0]? <;> rfl

/-- The node of a merge does not show which part was on the left. -/
theorem inner_sorted (clusters : Clusters W) (merge : Merge W) :
    MergeForest.inner clusters merge.sorted = MergeForest.inner clusters merge := by
  simp [MergeForest.inner, Merge.sorted]

/-- The forest does not tell in which direction a merge was made. -/
theorem Alike.forest_eq {clusters other : Clusters W} (halike : Alike clusters other)
    (leafCount componentCount : Nat) :
    MergeForest.ofClusters leafCount componentCount clusters =
      MergeForest.ofClusters leafCount componentCount other := by
  have hplaceholder :
      MergeForest.placeholder clusters.merges = MergeForest.placeholder other.merges := by
    rw [← placeholder_sorted, halike.merges_eq, placeholder_sorted]
  have hleaf : MergeForest.leaf clusters = MergeForest.leaf other := by
    funext id
    simp only [MergeForest.leaf, parentOf, populationOf, halike.parent_eq, halike.population_eq,
      hplaceholder]
  have hinner : MergeForest.inner clusters = MergeForest.inner other := by
    funext merge
    simp only [MergeForest.inner, parentOf, populationOf, halike.parent_eq, halike.population_eq,
      hplaceholder]
  have hsorted : ∀ state : Clusters W, state.merges.map (MergeForest.inner state) =
      (state.merges.map Merge.sorted).map (MergeForest.inner state) := by
    intro state
    rw [Array.map_map]
    congr 1
    funext merge
    exact (inner_sorted state merge).symm
  rw [MergeForest.ofClusters, MergeForest.ofClusters, hsorted, hsorted, halike.merges_eq, hleaf,
    hinner]

/-- States stay alike if both merge along the same edge. -/
theorem Alike.merge {clusters other : Clusters W} (halike : Alike clusters other)
    (hcomm : ∀ left right : W, left + right = right + left) {edge : Edge W}
    (hfits : (clusters.fusion edge).Fits clusters.edges) (hsimple : Simple clusters.edges) :
    Alike (clusters.merge edge) (other.merge edge) := by
  have hpopulation : clusters.populationOf = other.populationOf := by
    funext id
    rw [populationOf, populationOf, halike.population_eq]
  have hfusion : clusters.fusion edge = other.fusion edge := by
    rw [fusion, fusion, hpopulation, halike.parent_eq]
  refine ⟨?_, ?_, ?_, ?_⟩
  · rw [edges_merge, edges_merge, ← hfusion]
    exact hfits.apply_perm hcomm hsimple halike.edges_perm
  · simp only [Clusters.merge, halike.parent_eq]
  · simp only [Clusters.merge, halike.population_eq, hpopulation]
  · simp only [Clusters.merge, Array.map_push, halike.merges_eq, halike.parent_eq]

/-! ## The other direction -/

/-- The same fusion with the parts named the other way round. -/
def Fusion.swap (fusion : Fusion W) : Fusion W :=
  { left := fusion.right
    right := fusion.left
    node := fusion.node
    leftShare := fusion.rightShare
    rightShare := fusion.leftShare }

/-- A merge treats its two parts alike. -/
theorem Fusion.apply_swap {fusion : Fusion W} (hparts : fusion.left ≠ fusion.right)
    (edges : List (Edge W)) : fusion.swap.apply edges = fusion.apply edges := by
  have hjoins : (fun edge : Edge W => !edge.joins fusion.swap.left fusion.swap.right) =
      fun edge => !edge.joins fusion.left fusion.right := by
    funext edge
    rw [Edge.joins, Edge.joins, Bool.or_comm]
    rfl
  have hmove : fusion.swap.move = fusion.move := by
    funext cluster weight
    simp only [Fusion.move, Fusion.swap]
    grind
  have hredirect : fusion.swap.redirect = fusion.redirect := by
    funext edge
    rw [Fusion.redirect, Fusion.redirect, hmove]
  rw [Fusion.apply, Fusion.apply, hjoins, hredirect]
  rfl

end

/-- The two shares of a merge are those of its two parts. -/
theorem fusion_reverse {clusters : Clusters ℚ} {edge : Edge ℚ}
    (hpositive : 0 < clusters.populationOf edge.source) :
    clusters.fusion edge.reverse = (clusters.fusion edge).swap := by
  have hsource : (0 : ℚ) < clusters.populationOf edge.source := Nat.cast_pos.mpr hpositive
  have hwhole :
      (clusters.populationOf edge.source + clusters.populationOf edge.target : ℚ) ≠ 0 := by
    positivity
  have hshares : (clusters.populationOf edge.target /
      (clusters.populationOf edge.source + clusters.populationOf edge.target) : ℚ) =
        1 - clusters.populationOf edge.source /
          (clusters.populationOf edge.source + clusters.populationOf edge.target) := by
    rw [eq_sub_iff_add_eq, ← add_div, add_comm, div_self hwhole]
  simp only [fusion, Fusion.swap, Edge.reverse, share_eq_div, Nat.cast_add, Fusion.mk.injEq]
  rw [add_comm (clusters.populationOf edge.target : ℚ), hshares]
  simp

/-- It does not matter in which direction a merge is made. -/
theorem alike_merge_reverse {clusters : Clusters ℚ} {edge : Edge ℚ}
    (hpositive : 0 < clusters.populationOf edge.source) (hne : edge.source ≠ edge.target) :
    Alike (clusters.merge edge) (clusters.merge edge.reverse) := by
  refine ⟨?_, ?_, ?_, ?_⟩
  · rw [edges_merge, edges_merge, fusion_reverse hpositive, Fusion.apply_swap hne]
  · simp only [merge, Edge.reverse]
    rw [Array.setIfInBounds_comm _ _ hne]
  · simp only [merge, Edge.reverse]
    rw [Nat.add_comm]
  · simp only [merge, Edge.reverse, Array.map_push, Merge.sorted]
    rw [min_comm, max_comm]

/-! ## Runs side by side -/

/-- An edge of largest weight joins the pair of clusters. -/
def Heaviest (clusters : Clusters ℚ) (pair : Sym2 Nat) : Prop :=
  ∃ edge ∈ clusters.edges, s(edge.source, edge.target) = pair ∧
    ∀ other ∈ clusters.edges, other.weight ≤ edge.weight

/-- The edge that is chosen is one of the heaviest. -/
theorem heaviest_of_heaviest? {clusters : Clusters ℚ} {edge : Edge ℚ}
    (hedge : heaviest? clusters.edges = some edge) :
    clusters.Heaviest s(edge.source, edge.target) :=
  ⟨edge, mem_of_heaviest? hedge, rfl, weight_le_of_heaviest? hedge⟩

/-- A single pair is heaviest if all edges as heavy as one of them join the same two clusters. -/
theorem existsUnique_heaviest {clusters : Clusters ℚ} {edge : Edge ℚ}
    (hedge : edge ∈ clusters.edges)
    (hothers : ∀ other ∈ clusters.edges, other.weight ≤ edge.weight ∧
      (edge.weight ≤ other.weight → s(other.source, other.target) = s(edge.source, edge.target))) :
    ∃! pair, clusters.Heaviest pair := by
  refine ⟨_, ⟨edge, hedge, rfl, fun other hother => (hothers other hother).1⟩, ?_⟩
  intro pair ⟨other, hother, hpair, hle⟩
  rw [← hpair]
  exact (hothers other hother).2 (hle edge hedge)

/-- Without a tie between pairs, the edges that two alike states merge along are the same up
to their direction. -/
theorem Alike.heaviest?_cases {clusters other : Clusters ℚ} (halike : Alike clusters other)
    (hunique : ∃! pair, clusters.Heaviest pair) {edge best : Edge ℚ}
    (hedge : heaviest? clusters.edges = some edge) (hbest : heaviest? other.edges = some best) :
    best = edge ∨ best = edge.reverse := by
  have hmem : ∀ {next}, next ∈ clusters.edges ↔ next ∈ other.edges :=
    fun {_} => halike.edges_perm.mem_iff
  have hbestMem := hmem.mpr (mem_of_heaviest? hbest)
  have hweight : best.weight = edge.weight :=
    le_antisymm (weight_le_of_heaviest? hedge best hbestMem)
      (weight_le_of_heaviest? hbest edge (hmem.mp (mem_of_heaviest? hedge)))
  have hheaviest : clusters.Heaviest s(best.source, best.target) := by
    refine ⟨best, hbestMem, rfl, ?_⟩
    rw [hweight]
    exact weight_le_of_heaviest? hedge
  have hpair := hunique.unique hheaviest (heaviest_of_heaviest? hedge)
  rcases Sym2.eq_iff.mp hpair with ⟨hsource, htarget⟩ | ⟨hsource, htarget⟩
  · exact .inl (by rw [Edge.mk.injEq]; exact ⟨hsource, htarget, hweight⟩)
  · exact .inr (by rw [Edge.reverse, Edge.mk.injEq]; exact ⟨hsource, htarget, hweight⟩)

/-- Without ties both states merge the same pair, though perhaps along edges of opposite
directions. -/
theorem Alike.merge_heaviest {graph : Graph ℚ} (hgraph : graph.Proper)
    {clusters other : Clusters ℚ} (halike : Alike clusters other)
    (hinv : Invariant graph clusters) (hsimple : Simple clusters.edges)
    (hunique : ∃! pair, clusters.Heaviest pair) {edge best : Edge ℚ}
    (hedge : heaviest? clusters.edges = some edge) (hbest : heaviest? other.edges = some best) :
    Alike (clusters.merge edge) (other.merge best) := by
  have hmem := mem_of_heaviest? hedge
  have hbestMem := halike.edges_perm.mem_iff.mpr (mem_of_heaviest? hbest)
  have hsame : Alike (clusters.merge best) (other.merge best) :=
    halike.merge add_comm (hinv.fits hgraph hbestMem) hsimple
  rcases halike.heaviest?_cases hunique hedge hbest with rfl | rfl
  · exact hsame
  · have hpositive := hinv.partitioned.populationOf_pos hinv.recorded
      (hinv.live.ends_lt hgraph hinv.partitioned hmem).1
    have hne := (hinv.live.exists_mem hmem).1
    exact (alike_merge_reverse hpositive hne).trans hsame

/-- A run without ties has a run alike on every graph with the same edges in another
order. -/
theorem exists_alike_of_reached {graph other : Graph ℚ} (hgraph : graph.Proper)
    (hsimple : Simple graph.edges) (hnodes : other.nodeCount = graph.nodeCount)
    (hedges : graph.edges.Perm other.edges)
    (hunique : ∀ clusters, Reached (ofGraph graph) clusters → clusters.edges ≠ [] →
      ∃! pair, clusters.Heaviest pair)
    {clusters : Clusters ℚ} (hreached : Reached (ofGraph graph) clusters) :
    ∃ state, Reached (ofGraph other) state ∧ Alike clusters state := by
  apply Reached.induction _ _ hreached
  · intro clusters edge hreached ⟨state, hstate, halike⟩ hedge
    have hne := List.ne_nil_of_mem (mem_of_heaviest? hedge)
    have hstateNe : heaviest? state.edges ≠ none := by
      rw [Ne, heaviest?_eq_none_iff]
      intro hnil
      exact hne (hnil ▸ halike.edges_perm).eq_nil
    obtain ⟨best, hbest⟩ := Option.ne_none_iff_exists'.mp hstateNe
    exact ⟨state.merge best, hstate.merge hbest,
      halike.merge_heaviest hgraph (hreached.invariant hgraph)
        (simple_of_reached hsimple hreached) (hunique clusters hreached hne) hedge hbest⟩
  · exact ⟨_, reached_self _, alike_ofGraph hnodes hedges⟩

end Clusters

/-- Two graphs with exact weights list the same pairs, once in each direction, in different
orders.  If at every merge of the run on the first one a single pair of clusters has the
largest weight, both are clustered to the same forest. -/
theorem Graph.cluster_forest_eq_of_untied {graph other : Graph ℚ} {pairs : List (Edge ℚ)}
    (hlists : graph.Lists pairs) (hothers : other.Lists pairs)
    (hnodes : other.nodeCount = graph.nodeCount)
    (hunique : ∀ count clusters, Clusters.mergeTimes count (.ofGraph graph) = .ok clusters →
      clusters.edges ≠ [] → ∃! pair, clusters.Heaviest pair) :
    other.cluster.map Linkage.forest = graph.cluster.map Linkage.forest ∧
    (2 * graph.nodeCount ≤ Linkage.idLimit → ∃ linkage, graph.cluster = .ok linkage) := by
  have hgraph := hlists.graph_proper
  have hother := hothers.graph_proper
  refine ⟨?_, fun hfits => Graph.exists_cluster_iff.mpr ⟨hfits, hgraph⟩⟩
  have hperm : graph.edges.Perm other.edges := hlists.edges_perm.trans hothers.edges_perm.symm
  rcases Nat.lt_or_ge Linkage.idLimit (2 * graph.nodeCount) with hover | hfits
  · rw [Graph.cluster_eq_of_lt hover, Graph.cluster_eq_of_lt (hnodes ▸ hover), hnodes]
  · obtain ⟨linkage, hrun⟩ := Graph.exists_cluster_iff.mpr ⟨hfits, hgraph⟩
    have hlinkage := (Graph.proper_of_cluster hrun).2
    obtain ⟨state, hstate, halike⟩ := Clusters.exists_alike_of_reached hgraph hlists.simple hnodes
      hperm (fun clusters ⟨count, hcount⟩ => hunique count clusters hcount) hlinkage.reached
    -- the first run ends because its edges are used up, so those of the second one are too
    have hnil : state.edges = [] := by
      have hedges := halike.edges_perm
      rw [hlinkage.edges_eq_nil hgraph] at hedges
      exact hedges.nil_eq.symm
    obtain ⟨second, hsecond, rfl⟩ :=
      Graph.exists_cluster_of_reached (hnodes ▸ hfits) hother hstate hnil
    have hclustered := (Graph.proper_of_cluster hsecond).2
    have hcount : other.components.count = graph.components.count := by
      rw [← hclustered.card_current hother, ← hlinkage.card_current hgraph, halike.current_eq]
    rw [hrun, hsecond, Except.map, Except.map, hlinkage.forest_eq, hclustered.forest_eq, hcount,
      hnodes, halike.forest_eq]

/-- A triangle with a tail, and an isolated node. -/
def Graph.tailed : Graph ℚ :=
  ⟨5, [⟨0, 1, 8⟩, ⟨1, 0, 8⟩, ⟨1, 2, 5⟩, ⟨2, 1, 5⟩, ⟨0, 2, 3⟩, ⟨2, 0, 3⟩, ⟨2, 3, 1⟩, ⟨3, 2, 1⟩]⟩

def Graph.tailedShuffled : Graph ℚ :=
  ⟨5, [⟨3, 2, 1⟩, ⟨2, 0, 3⟩, ⟨1, 0, 8⟩, ⟨2, 1, 5⟩, ⟨2, 3, 1⟩, ⟨1, 2, 5⟩, ⟨0, 1, 8⟩, ⟨0, 2, 3⟩]⟩

/-- The two runs merge in opposite directions and come to the same forest. -/
theorem Graph.cluster_forest_eq_of_untied_tailed :
    Graph.tailed.cluster ≠ Graph.tailedShuffled.cluster ∧
    Graph.tailedShuffled.cluster.map Linkage.forest =
      Graph.tailed.cluster.map Linkage.forest ∧
    ∃ linkage, Graph.tailed.cluster = .ok linkage := by
  have hlists : Graph.tailed.Lists [⟨0, 1, 8⟩, ⟨1, 2, 5⟩, ⟨0, 2, 3⟩, ⟨2, 3, 1⟩] :=
    ⟨by decide, by decide, by decide +kernel⟩
  have hothers : Graph.tailedShuffled.Lists [⟨0, 1, 8⟩, ⟨1, 2, 5⟩, ⟨0, 2, 3⟩, ⟨2, 3, 1⟩] :=
    ⟨by decide, by decide, by decide +kernel⟩
  have hstates : ∀ count < 6,
      (Clusters.mergeTimes count (.ofGraph Graph.tailed)).toOption.all (fun clusters =>
        clusters.edges = [] ∨ ∃ edge ∈ clusters.edges, ∀ other ∈ clusters.edges,
          other.weight ≤ edge.weight ∧ (edge.weight ≤ other.weight →
            s(other.source, other.target) = s(edge.source, edge.target))) = true := by
    decide +kernel
  have hunique : ∀ count clusters,
      Clusters.mergeTimes count (.ofGraph Graph.tailed) = .ok clusters →
        clusters.edges ≠ [] → ∃! pair, clusters.Heaviest pair := by
    intro count clusters hrun hne
    have hcard : clusters.current.card + count = 5 :=
      Clusters.card_current_of_mergeTimes hlists.graph_proper hrun
    have hstate := hstates count (by omega)
    simp only [hrun, Except.toOption, Option.all_some, decide_eq_true_eq] at hstate
    obtain ⟨edge, hedge, hothers⟩ := hstate.resolve_left hne
    exact Clusters.existsUnique_heaviest hedge hothers
  obtain ⟨hforest, hruns⟩ := Graph.cluster_forest_eq_of_untied hlists hothers rfl hunique
  exact ⟨by decide +kernel, hforest, hruns (by decide)⟩

end AverageLinkage
