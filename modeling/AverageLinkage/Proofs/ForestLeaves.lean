import Mathlib
import AverageLinkage.Proofs.ForestShape

/-!
# The leaves of merge forests

The leaves below a root of the forest of a clustering are the nodes of one
component of the graph.  Every leaf lies below exactly one root, and every node
counts the leaves below it.
-/

namespace AverageLinkage

namespace MergeForest

variable {W : Type}

/-- A node is reached from another one by going down from parents to children. -/
def Below (forest : MergeForest W) : Nat → Nat → Prop :=
  Relation.ReflTransGen fun child parent => child ∈ forest.childList parent

def leavesBelow (forest : MergeForest W) (id : Nat) : Set Nat :=
  {leaf | leaf < forest.leafCount ∧ forest.Below leaf id}

end MergeForest

namespace Clusters

open MergeForest (ofClusters)

variable {W : Type} {leafCount : Nat} {clusters : Clusters W}

/-! ## Leaves and clusters -/

theorem Partitioned.members_subset_range (hpart : Partitioned leafCount clusters)
    (hrec : Recorded leafCount clusters) {id : Nat} (hid : id < clusters.parent.size) :
    clusters.members id ⊆ Finset.range leafCount := by
  refine hrec.induction (motive := fun id => clusters.members id ⊆ Finset.range leafCount)
    ?_ ?_ hid
  · intro id hleaf
    rw [hpart.members_leaf id hleaf, Finset.singleton_subset_iff]
    exact Finset.mem_range.mpr hleaf
  · intro merge hmerge hleft hright
    rw [hpart.members_node merge hmerge]
    exact Finset.union_subset hleft hright

/-- If no edge is left, a current cluster is the component of each of its leaves. -/
theorem Invariant.mem_members_iff_connected {graph : Graph W} {clusters : Clusters W}
    (hinv : Invariant graph clusters) (hgraph : graph.Proper) (hedges : clusters.edges = [])
    {id leaf : Nat} (hid : id ∈ clusters.current) (hleaf : leaf ∈ clusters.members id)
    (other : Nat) : other ∈ clusters.members id ↔ graph.Connected leaf other := by
  constructor
  · intro hother
    exact hinv.live.connected id (mem_current.mp hid).1 leaf hleaf other hother
  · intro hconnected
    rw [hinv.partitioned.mem_members_iff id hid] at hleaf ⊢
    refine ⟨(hconnected.lt_iff hgraph.inRange).mp hleaf.1, ?_⟩
    rw [← hleaf.2]
    exact (hinv.live.owner_eq_of_connected hedges hconnected).symm

section

variable [Weight W]

/-- The children of a node are the two parts of the merge that formed it. -/
theorem Recorded.mem_childList_iff (hrec : Recorded leafCount clusters)
    {componentCount id child : Nat} :
    child ∈ (ofClusters leafCount componentCount clusters).childList id ↔
      ∃ merge ∈ clusters.merges, merge.node = id ∧ (child = merge.left ∨ child = merge.right) := by
  rw [← hrec.linked_eq_childList, hrec.mem_linked_iff]
  constructor
  · rintro ⟨_, hne, hparent⟩
    obtain ⟨merge, hmerge, hnode, hpart⟩ := hrec.part_of child (by omega)
    exact ⟨merge, hmerge, hnode.symm.trans hparent, hpart⟩
  · rintro ⟨merge, hmerge, rfl, hpart⟩
    obtain ⟨hleft, hright⟩ := hrec.parts_lt merge hmerge
    have hnode := (hrec.node_bounds hmerge).2
    exact ⟨by omega, (hrec.parentOf_eq_node_iff hmerge).mpr hpart⟩

/-- What is below a node belongs to its cluster. -/
theorem Partitioned.members_subset_of_below (hpart : Partitioned leafCount clusters)
    (hrec : Recorded leafCount clusters) {componentCount low high : Nat}
    (hbelow : (ofClusters leafCount componentCount clusters).Below low high) :
    clusters.members low ⊆ clusters.members high := by
  induction hbelow with
  | refl => exact Finset.Subset.refl _
  | tail _ hchild ih =>
      obtain ⟨merge, hmerge, rfl, rfl | rfl⟩ := hrec.mem_childList_iff.mp hchild
      · rw [hpart.members_node merge hmerge]
        exact ih.trans Finset.subset_union_left
      · rw [hpart.members_node merge hmerge]
        exact ih.trans Finset.subset_union_right

/-- From a cluster the forest leads down to each of its leaves. -/
theorem Partitioned.below_of_mem_members (hpart : Partitioned leafCount clusters)
    (hrec : Recorded leafCount clusters) (componentCount : Nat) {id leaf : Nat}
    (hid : id < clusters.parent.size) (hleaf : leaf ∈ clusters.members id) :
    (ofClusters leafCount componentCount clusters).Below leaf id := by
  refine hrec.induction (motive := fun id => leaf ∈ clusters.members id →
    (ofClusters leafCount componentCount clusters).Below leaf id) ?_ ?_ hid hleaf
  · intro id hlow hleaf
    rw [hpart.members_leaf id hlow, Finset.mem_singleton] at hleaf
    rw [hleaf]
    exact .refl
  · intro merge hmerge hleft hright hleaf
    rw [hpart.members_node merge hmerge, Finset.mem_union] at hleaf
    rcases hleaf with hleaf | hleaf
    · exact (hleft hleaf).tail (hrec.mem_childList_iff.mpr ⟨merge, hmerge, rfl, .inl rfl⟩)
    · exact (hright hleaf).tail (hrec.mem_childList_iff.mpr ⟨merge, hmerge, rfl, .inr rfl⟩)

/-- The leaves below a node are those of its cluster. -/
theorem Partitioned.leavesBelow_eq (hpart : Partitioned leafCount clusters)
    (hrec : Recorded leafCount clusters) (componentCount : Nat) {id : Nat}
    (hid : id < clusters.parent.size) :
    (ofClusters leafCount componentCount clusters).leavesBelow id = clusters.members id := by
  ext leaf
  constructor
  · rintro ⟨hleaf, hbelow⟩
    have hself : leaf ∈ clusters.members leaf := by
      rw [hpart.members_leaf leaf hleaf]
      exact Finset.mem_singleton_self leaf
    exact hpart.members_subset_of_below hrec hbelow hself
  · intro hleaf
    exact ⟨Finset.mem_range.mp (hpart.members_subset_range hrec hid hleaf),
      hpart.below_of_mem_members hrec componentCount hid hleaf⟩

/-- The roots are the clusters that no merge has taken. -/
theorem Recorded.mem_roots_iff (hrec : Recorded leafCount clusters) {componentCount id : Nat} :
    id ∈ (ofClusters leafCount componentCount clusters).roots ↔ id ∈ clusters.current := by
  rw [hrec.roots_forest, mem_current, List.mem_filter, List.mem_range, decide_eq_true_iff]

/-- The populations of the roots add up to the number of leaves. -/
theorem Partitioned.sum_population_roots (hpart : Partitioned leafCount clusters)
    (hrec : Recorded leafCount clusters) (componentCount : Nat) :
    (((ofClusters leafCount componentCount clusters).roots.filterMap
      (ofClusters leafCount componentCount clusters).node?).map
        MergeForest.Node.population).sum = leafCount := by
  have hpopulations : ((ofClusters leafCount componentCount clusters).roots.filterMap
      (ofClusters leafCount componentCount clusters).node?).map MergeForest.Node.population =
      (ofClusters leafCount componentCount clusters).roots.map clusters.populationOf := by
    rw [List.map_filterMap, ← List.filterMap_eq_map]
    refine List.filterMap_congr fun id hid => ?_
    have hlt := (mem_current.mp (hrec.mem_roots_iff.mp hid)).1
    obtain ⟨node, hnode, _, hpopulation, _⟩ := hrec.exists_node componentCount hlt
    simp [hnode, hpopulation]
  have hroots : (ofClusters leafCount componentCount clusters).roots.toFinset =
      clusters.current := by
    ext id
    rw [List.mem_toFinset, hrec.mem_roots_iff]
  have hnodup : (ofClusters leafCount componentCount clusters).roots.Nodup :=
    List.nodup_range.filter _
  have hmembers : ∀ id ∈ clusters.current, clusters.populationOf id =
      ((Finset.range leafCount).filter fun leaf => clusters.owner leaf = id).card := by
    intro id hid
    rw [hpart.population_eq id (mem_current.mp hid).1]
    congr 1
    ext leaf
    rw [hpart.mem_members_iff id hid, Finset.mem_filter, Finset.mem_range]
  calc
    _ = ∑ id ∈ clusters.current, clusters.populationOf id := by
      rw [hpopulations, ← hroots, List.sum_toFinset _ hnodup]
    _ = ∑ id ∈ clusters.current,
          ((Finset.range leafCount).filter fun leaf => clusters.owner leaf = id).card :=
      Finset.sum_congr rfl hmembers
    _ = (Finset.range leafCount).card :=
      (Finset.card_eq_sum_card_fiberwise fun leaf hleaf =>
        hpart.owner_mem leaf (Finset.mem_range.mp hleaf)).symm
    _ = leafCount := Finset.card_range leafCount

end

end Clusters

namespace Graph.Clustered

variable {W : Type} [Weight W] {graph : Graph W} {linkage : Linkage W}

theorem mem_roots_iff (hlinkage : graph.Clustered linkage) (hgraph : graph.Proper) {id : Nat} :
    id ∈ linkage.forest.roots ↔ id ∈ linkage.clusters.current := by
  rw [hlinkage.forest_eq]
  exact (hlinkage.invariant hgraph).recorded.mem_roots_iff

/-- The leaves below a node are the items of its cluster. -/
theorem leavesBelow_eq (hlinkage : graph.Clustered linkage) (hgraph : graph.Proper) {id : Nat}
    (hid : id < linkage.clusters.parent.size) :
    linkage.forest.leavesBelow id = linkage.clusters.members id := by
  have hinv := hlinkage.invariant hgraph
  rw [hlinkage.forest_eq]
  exact hinv.partitioned.leavesBelow_eq hinv.recorded _ hid

theorem leavesBelow_root (hlinkage : graph.Clustered linkage) (hgraph : graph.Proper) {root : Nat}
    (hroot : root ∈ linkage.forest.roots) :
    linkage.forest.leavesBelow root = linkage.clusters.members root :=
  hlinkage.leavesBelow_eq hgraph
    (Clusters.mem_current.mp ((hlinkage.mem_roots_iff hgraph).mp hroot)).1

/-- The leaves below a root are one component. -/
theorem exists_leavesBelow_eq (hlinkage : graph.Clustered linkage) (hgraph : graph.Proper)
    {root : Nat} (hroot : root ∈ linkage.forest.roots) :
    ∃ node < graph.nodeCount,
      linkage.forest.leavesBelow root = {other | graph.Connected node other} := by
  have hinv := hlinkage.invariant hgraph
  have hedges := hlinkage.edges_eq_nil hgraph
  have hcurrent := (hlinkage.mem_roots_iff hgraph).mp hroot
  obtain ⟨leaf, hleaf⟩ :=
    hinv.partitioned.members_nonempty hinv.recorded (Clusters.mem_current.mp hcurrent).1
  refine ⟨leaf, ((hinv.partitioned.mem_members_iff root hcurrent leaf).mp hleaf).1, ?_⟩
  rw [hlinkage.leavesBelow_root hgraph hroot]
  ext other
  exact hinv.mem_members_iff_connected hgraph hedges hcurrent hleaf other

theorem leavesBelow_ne (hlinkage : graph.Clustered linkage) (hgraph : graph.Proper)
    {left right : Nat} (hleft : left ∈ linkage.forest.roots)
    (hright : right ∈ linkage.forest.roots) (hne : left ≠ right) :
    linkage.forest.leavesBelow left ≠ linkage.forest.leavesBelow right := by
  have hinv := hlinkage.invariant hgraph
  intro heq
  rw [hlinkage.leavesBelow_root hgraph hleft, hlinkage.leavesBelow_root hgraph hright,
    Finset.coe_inj] at heq
  rw [hlinkage.mem_roots_iff hgraph] at hleft hright
  exact hne (hinv.partitioned.members_injOn hinv.recorded hleft hright heq)

/-- The only root above a leaf is the cluster that the leaf has come to. -/
theorem existsUnique_root (hlinkage : graph.Clustered linkage) (hgraph : graph.Proper)
    {leaf : Nat} (hleaf : leaf < graph.nodeCount) :
    ∃! root, root ∈ linkage.forest.roots ∧ leaf ∈ linkage.forest.leavesBelow root := by
  have hpart := (hlinkage.invariant hgraph).partitioned
  have howner := hpart.owner_mem leaf hleaf
  have hroot := (hlinkage.mem_roots_iff hgraph).mpr howner
  refine ⟨linkage.clusters.owner leaf, ⟨hroot, ?_⟩, ?_⟩
  · rw [hlinkage.leavesBelow_root hgraph hroot, Finset.mem_coe, hpart.mem_members_iff _ howner]
    exact ⟨hleaf, rfl⟩
  · rintro root ⟨hroot, hbelow⟩
    rw [hlinkage.leavesBelow_root hgraph hroot, Finset.mem_coe,
      hpart.mem_members_iff root ((hlinkage.mem_roots_iff hgraph).mp hroot)] at hbelow
    exact hbelow.2.symm

/-- The population of a node counts the leaves below it. -/
theorem population_eq_ncard (hlinkage : graph.Clustered linkage) (hgraph : graph.Proper) {id : Nat}
    {node : MergeForest.Node W} (hnode : linkage.forest.node? id = some node) :
    node.population = (linkage.forest.leavesBelow id).ncard := by
  have hinv := hlinkage.invariant hgraph
  rw [hlinkage.forest_eq] at hnode
  obtain ⟨hid, _, hpopulation, _⟩ := hinv.recorded.of_node? hnode
  rw [hlinkage.leavesBelow_eq hgraph hid, Set.ncard_coe_finset, hpopulation,
    hinv.partitioned.population_eq id hid]

end Graph.Clustered

/-- The roots of the forest of a clustering are the components of the graph.  The
leaves below a root are one class of connected nodes, different roots have
different classes, and every node of the graph is below exactly one root.  Every
node counts the leaves below it. -/
theorem Graph.cluster_forest_leaves {W : Type} [Weight W] {graph : Graph W}
    {linkage : Linkage W} (hrun : graph.cluster = .ok linkage) :
    (∀ root ∈ linkage.forest.roots, ∃ node < graph.nodeCount,
      linkage.forest.leavesBelow root = {other | graph.Connected node other}) ∧
    (∀ left ∈ linkage.forest.roots, ∀ right ∈ linkage.forest.roots, left ≠ right →
      linkage.forest.leavesBelow left ≠ linkage.forest.leavesBelow right) ∧
    (∀ leaf < graph.nodeCount, ∃! root,
      root ∈ linkage.forest.roots ∧ leaf ∈ linkage.forest.leavesBelow root) ∧
    (∀ id node, linkage.forest.node? id = some node →
      node.population = (linkage.forest.leavesBelow id).ncard) ∧
    ((linkage.forest.roots.filterMap linkage.forest.node?).map
      MergeForest.Node.population).sum = graph.nodeCount := by
  obtain ⟨hgraph, hlinkage⟩ := Graph.proper_of_cluster hrun
  have hinv := hlinkage.invariant hgraph
  refine ⟨fun _ hroot => hlinkage.exists_leavesBelow_eq hgraph hroot,
    fun _ hleft _ hright hne => hlinkage.leavesBelow_ne hgraph hleft hright hne,
    fun _ hleaf => hlinkage.existsUnique_root hgraph hleaf,
    fun _ _ hnode => hlinkage.population_eq_ncard hgraph hnode, ?_⟩
  rw [hlinkage.forest_eq]
  exact hinv.partitioned.sum_population_roots hinv.recorded _

theorem Graph.cluster_forest_leaves_mixed :
    ∃ linkage, Graph.mixed.cluster = .ok linkage ∧ linkage.forest.roots = [5, 7, 8] ∧
      (∀ root ∈ [5, 7, 8], ∃ node < 6,
        linkage.forest.leavesBelow root = {other | Graph.mixed.Connected node other}) ∧
      ∀ leaf < 6, ∃! root, root ∈ [5, 7, 8] ∧ leaf ∈ linkage.forest.leavesBelow root := by
  obtain ⟨linkage, hrun, hroots⟩ := Graph.exists_cluster_mixed
  obtain ⟨hclass, _, hunique, _⟩ := Graph.cluster_forest_leaves hrun
  rw [hroots] at hclass hunique
  exact ⟨linkage, hrun, hroots, hclass, hunique⟩

end AverageLinkage
