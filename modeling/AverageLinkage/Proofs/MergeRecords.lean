import Mathlib
import AverageLinkage.Proofs.ForestShape

/-!
# Recorded merges

A clustering records every merge when it is made, and the forest is made from the records.
Here the two are put side by side: each merge took two clusters that were current at its time,
and the inner nodes of the forest are the merges.
-/

namespace AverageLinkage

/-! ## The state before each merge -/

namespace Clusters

variable {W : Type} [Weight W]

/-- Later merges leave the earlier ones as they are. -/
theorem getElem?_merges_mergeTimes {count : Nat} {start after : Clusters W}
    (hrun : mergeTimes count start = .ok after) {index : Nat}
    (hindex : index < start.merges.size) : after.merges[index]? = start.merges[index]? := by
  induction count generalizing start with
  | zero =>
      obtain rfl : start = after := Except.ok.inj hrun
      rfl
  | succ count ih =>
      rw [mergeTimes] at hrun
      cases hnext : start.step? with
      | none => simp [hnext] at hrun
      | some next =>
          simp only [hnext] at hrun
          obtain ⟨edge, _, rfl⟩ := Option.map_eq_some_iff.mp hnext
          rw [ih hrun (by rw [size_merges_merge]; omega), merge, Array.getElem?_push,
            if_neg (by omega)]

/-- Every merge of a run was made along the heaviest edge of the state before it. -/
theorem exists_state_of_mergeTimes {count : Nat} {start after : Clusters W}
    (hrun : mergeTimes count start = .ok after) {index : Nat} (hindex : index < count) :
    ∃ state edge, mergeTimes index start = .ok state ∧ heaviest? state.edges = some edge ∧
      after.merges[start.merges.size + index]? = some
        { node := state.parent.size, left := edge.source, right := edge.target
          height := edge.weight } := by
  -- A run is taken apart at its first merge, so the state before a later merge is reached
  -- from the state after the first one.
  induction count generalizing start index with
  | zero => omega
  | succ count ih =>
      rw [mergeTimes] at hrun
      cases hnext : start.step? with
      | none => simp [hnext] at hrun
      | some next =>
          simp only [hnext] at hrun
          obtain ⟨edge, hedge, rfl⟩ := Option.map_eq_some_iff.mp hnext
          cases index with
          | zero =>
              refine ⟨start, edge, rfl, hedge, ?_⟩
              rw [Nat.add_zero, getElem?_merges_mergeTimes hrun (by simp), merge,
                Array.getElem?_push, if_pos rfl]
          | succ index =>
              have hlt : index < count := by omega
              obtain ⟨state, chosen, hstate, hchosen, hmerge⟩ := ih hrun hlt
              refine ⟨state, chosen, ?_, hchosen, ?_⟩
              · rw [mergeTimes, hnext]
                exact hstate
              · rw [← hmerge, size_merges_merge]
                congr 1
                omega

/-- A cluster has the populations of its two parts together. -/
theorem Recorded.populationOf_merge {leafCount : Nat} {clusters : Clusters W}
    (hrec : Recorded leafCount clusters)
    (hsum : ∀ merge ∈ clusters.merges, clusters.populationOf merge.node =
      clusters.populationOf merge.left + clusters.populationOf merge.right)
    {edge : Edge W} (hsource : edge.source < clusters.parent.size)
    (htarget : edge.target < clusters.parent.size) :
    ∀ merge ∈ (clusters.merge edge).merges, (clusters.merge edge).populationOf merge.node =
      (clusters.merge edge).populationOf merge.left +
        (clusters.merge edge).populationOf merge.right := by
  intro merge hmerge
  have hsize := hrec.size_population
  rcases Array.mem_push.mp hmerge with hold | rfl
  · obtain ⟨hleft, hright⟩ := hrec.parts_lt merge hold
    have hnode := (hrec.node_bounds hold).2
    simp only [Clusters.populationOf_merge]
    rw [if_neg (by omega), if_neg (by omega), if_neg (by omega), hsum merge hold]
  · simp only [Clusters.populationOf_merge]
    rw [if_pos hsize.symm, if_neg (by omega), if_neg (by omega)]

/-- A merge adds up the populations of its two parts. -/
theorem populationOf_parts_of_reached {graph : Graph W} (hgraph : graph.Proper)
    {clusters : Clusters W} (hreached : Reached (ofGraph graph) clusters) :
    ∀ merge ∈ clusters.merges, clusters.populationOf merge.node =
      clusters.populationOf merge.left + clusters.populationOf merge.right := by
  refine Reached.induction
    (motive := fun clusters => ∀ merge ∈ clusters.merges, clusters.populationOf merge.node =
      clusters.populationOf merge.left + clusters.populationOf merge.right) ?_ ?_ hreached
  · intro clusters edge hreached hsum hedge
    have hinv := hreached.invariant hgraph
    obtain ⟨hsource, htarget⟩ :=
      hinv.live.ends_lt hgraph hinv.partitioned (mem_of_heaviest? hedge)
    exact hinv.recorded.populationOf_merge hsum hsource htarget
  · intro merge hmerge
    simp [ofGraph] at hmerge

end Clusters

/-! ## The inner nodes of the forest -/

section

variable {W : Type} [Weight W] {graph : Graph W} {linkage : Linkage W}

/-- Every merge took two current clusters. -/
theorem Graph.Clustered.exists_state (hlinkage : graph.Clustered linkage)
    (hgraph : graph.Proper) {index : Nat} {merge : Merge W}
    (hmerge : linkage.merges[index]? = some merge) :
    ∃ state edge, Clusters.mergeTimes index (.ofGraph graph) = .ok state ∧
      Clusters.heaviest? state.edges = some edge ∧ edge.source ≠ edge.target ∧
      edge.source ∈ state.current ∧ edge.target ∈ state.current ∧
      merge = { node := graph.nodeCount + index, left := edge.source, right := edge.target
                height := edge.weight } := by
  have hindex : index < graph.nodeCount - graph.components.count := by
    rw [← hlinkage.size_merges]
    exact (Array.getElem?_eq_some_iff.mp hmerge).1
  obtain ⟨state, edge, hstate, hedge, hrecord⟩ :=
    Clusters.exists_state_of_mergeTimes hlinkage.2.2 hindex
  have hinv := Clusters.invariant_of_mergeTimes hgraph hstate
  have hmem := Clusters.mem_of_heaviest? hedge
  obtain ⟨hsource, htarget⟩ := hinv.live.ends_mem hgraph hinv.partitioned hmem
  refine ⟨state, edge, hstate, hedge, (hinv.live.exists_mem hmem).1, hsource, htarget, ?_⟩
  have hsize : state.parent.size = graph.nodeCount + index := by
    rw [hinv.recorded.size_parent, Clusters.size_merges_of_mergeTimes hstate]
  have hstart : (Clusters.ofGraph graph).merges.size + index = index := Nat.zero_add index
  rw [hstart, hsize] at hrecord
  exact Option.some.inj (hmerge.symm.trans hrecord)

/-- The node of a merge has its two parts as children, and they have it as their parent. -/
theorem Graph.Clustered.exists_nodes (hlinkage : graph.Clustered linkage)
    (hgraph : graph.Proper) {merge : Merge W} (hmerge : merge ∈ linkage.merges) :
    ∃ node left right, linkage.forest.node? merge.node = some node ∧
      linkage.forest.node? merge.left = some left ∧
      linkage.forest.node? merge.right = some right ∧
      node.children = some (min merge.left merge.right, max merge.left merge.right) ∧
      node.population = left.population + right.population ∧
      left.parent = merge.node ∧ right.parent = merge.node := by
  have hrec := (hlinkage.invariant hgraph).recorded
  obtain ⟨hleftLt, hrightLt⟩ := hrec.parts_lt merge hmerge
  obtain ⟨hinner, hnodeLt⟩ := hrec.node_bounds hmerge
  obtain ⟨hleftParent, hrightParent⟩ := hrec.parent_parts merge hmerge
  rw [hlinkage.forest_eq]
  obtain ⟨node, hnode, _, hpopulation, hchildren⟩ :=
    hrec.exists_node graph.components.count hnodeLt
  obtain ⟨left, hleft, hparent, hleftPopulation, _⟩ :=
    hrec.exists_node graph.components.count (hleftLt.trans hnodeLt)
  obtain ⟨right, hright, hparent', hrightPopulation, _⟩ :=
    hrec.exists_node graph.components.count (hrightLt.trans hnodeLt)
  refine ⟨node, left, right, hnode, hleft, hright, ?_, ?_, hparent.trans hleftParent,
    hparent'.trans hrightParent⟩
  · obtain ⟨hleaf, _⟩ | ⟨other, hother, hsame, hchildren⟩ := hchildren
    · omega
    · rwa [hrec.eq_of_node_eq hmerge hother hsame.symm]
  · rw [hpopulation, hleftPopulation, hrightPopulation,
      Clusters.populationOf_parts_of_reached hgraph hlinkage.reached merge hmerge]

/-- Only the nodes of merges have children. -/
theorem Graph.Clustered.exists_merge_of_children (hlinkage : graph.Clustered linkage)
    (hgraph : graph.Proper) {id : Nat} {node : MergeForest.Node W}
    (hnode : linkage.forest.node? id = some node) (hchildren : node.children ≠ none) :
    ∃ merge ∈ linkage.merges, merge.node = id := by
  rw [hlinkage.forest_eq] at hnode
  obtain ⟨_, _, _, ⟨_, hnone⟩ | ⟨merge, hmerge, hid, _⟩⟩ :=
    (hlinkage.invariant hgraph).recorded.of_node? hnode
  · exact absurd hnone hchildren
  · exact ⟨merge, hmerge, hid⟩

end

end AverageLinkage
