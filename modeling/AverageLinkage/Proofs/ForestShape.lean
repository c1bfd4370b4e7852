import Mathlib
import AverageLinkage.Linkage.Exact
import AverageLinkage.Proofs.Outcome

/-!
# The shape of merge forests

The forest of a clustering is binary.  Leaves have no children, and an inner node
has the two parts of its merge, both with lower numbers.  Parent links and
children say the same: the links alone give the children back.  There is one
root for every component of the graph.
-/

namespace AverageLinkage

namespace MergeForest

variable {W : Type}

def childList (forest : MergeForest W) (id : Nat) : List Nat :=
  match (forest.node? id).bind Node.children with
  | some (first, second) => [first, second]
  | none => []

/-- The nodes that are linked to another one as their parent, in increasing
order. -/
def linked (forest : MergeForest W) (id : Nat) : List Nat :=
  (List.range forest.size).filter fun child =>
    child != id && (forest.node? child).any fun node => node.parent == id

/-- A binary forest in which every inner node has a higher number than its two
children. -/
structure WellFormed (forest : MergeForest W) : Prop where
  size_eq : forest.size = 2 * forest.leafCount - forest.componentCount
  leaf : ∀ id < forest.leafCount, ∃ node, forest.node? id = some node ∧ node.children = none
  inner : ∀ id node, forest.leafCount ≤ id → forest.node? id = some node →
    ∃ first second, node.children = some (first, second) ∧ first < second ∧ second < id ∧
      (forest.node? first).map Node.parent = some id ∧
      (forest.node? second).map Node.parent = some id
  parent : ∀ id node, forest.node? id = some node → node.parent = id ∨
    id < node.parent ∧ forest.leafCount ≤ node.parent ∧ node.parent < forest.size
  count_childList : ∀ id node, forest.node? id = some node → ∀ other,
    (forest.childList other).count id = if other = node.parent ∧ other ≠ id then 1 else 0
  slots : ∀ id node, forest.node? id = some node →
    (forest.linked id).foldl enterChild (none, none) =
      (node.children.map Prod.fst, node.children.map Prod.snd)
  length_roots : forest.roots.length = forest.componentCount

section

variable [Weight W]

@[simp]
theorem size_ofClusters (leafCount componentCount : Nat) (clusters : Clusters W) :
    (ofClusters leafCount componentCount clusters).size = leafCount + clusters.merges.size := by
  simp [size, ofClusters]

/-- The first nodes are the leaves. -/
theorem node?_ofClusters_of_lt {leafCount : Nat} (componentCount : Nat) (clusters : Clusters W)
    {id : Nat} (hid : id < leafCount) :
    (ofClusters leafCount componentCount clusters).node? id = some (leaf clusters id) := by
  simp [node?, ofClusters, Array.getElem?_append, hid]

/-- The nodes behind the leaves are those of the merges in order. -/
theorem node?_ofClusters_of_le {leafCount : Nat} (componentCount : Nat) (clusters : Clusters W)
    {id : Nat} (hid : leafCount ≤ id) :
    (ofClusters leafCount componentCount clusters).node? id =
      clusters.merges[id - leafCount]?.map (inner clusters) := by
  simp [node?, ofClusters, Array.getElem?_append, Nat.not_lt.mpr hid]

end

end MergeForest

namespace Clusters

open MergeForest (ofClusters)

variable {W : Type} {leafCount : Nat} {clusters : Clusters W}

/-! ## Links and merges -/

theorem Recorded.eq_of_node_eq (hrec : Recorded leafCount clusters) {merge other : Merge W}
    (hmerge : merge ∈ clusters.merges) (hother : other ∈ clusters.merges)
    (hnode : merge.node = other.node) : merge = other := by
  obtain ⟨index, hindex⟩ := Array.mem_iff_getElem?.mp hmerge
  obtain ⟨position, hposition⟩ := Array.mem_iff_getElem?.mp hother
  rw [hrec.node_eq index merge hindex, hrec.node_eq position other hposition] at hnode
  obtain rfl := Nat.add_left_cancel hnode
  exact Option.some.inj (hindex.symm.trans hposition)

/-- The links to a cluster come from the two parts of its merge. -/
theorem Recorded.parentOf_eq_node_iff (hrec : Recorded leafCount clusters) {merge : Merge W}
    (hmerge : merge ∈ clusters.merges) {id : Nat} :
    id ≠ merge.node ∧ clusters.parentOf id = merge.node ↔ id = merge.left ∨ id = merge.right := by
  constructor
  · rintro ⟨hne, hparent⟩
    obtain ⟨other, hother, hnode, hpart⟩ := hrec.part_of id (by omega)
    obtain rfl := hrec.eq_of_node_eq hmerge hother (hparent.symm.trans hnode)
    exact hpart
  · obtain ⟨hleftLt, hrightLt⟩ := hrec.parts_lt merge hmerge
    obtain ⟨hleft, hright⟩ := hrec.parent_parts merge hmerge
    rintro (rfl | rfl)
    · exact ⟨hleftLt.ne, hleft⟩
    · exact ⟨hrightLt.ne, hright⟩

/-! ## The nodes of the forest -/

section

variable [Weight W]

/-- What a node of the forest shows of its cluster. -/
theorem Recorded.exists_node (hrec : Recorded leafCount clusters) (componentCount : Nat) {id : Nat}
    (hid : id < clusters.parent.size) :
    ∃ node, (ofClusters leafCount componentCount clusters).node? id = some node ∧
      node.parent = clusters.parentOf id ∧ node.population = clusters.populationOf id ∧
      (id < leafCount ∧ node.children = none ∨
        ∃ merge ∈ clusters.merges, merge.node = id ∧
          node.children = some (min merge.left merge.right, max merge.left merge.right)) := by
  rcases Nat.lt_or_ge id leafCount with hleaf | hinner
  · exact ⟨_, MergeForest.node?_ofClusters_of_lt componentCount clusters hleaf, rfl, rfl,
      .inl ⟨hleaf, rfl⟩⟩
  · have hindex : id - leafCount < clusters.merges.size := by
      have := hrec.size_parent
      omega
    have hget := Array.getElem?_eq_getElem hindex
    have hnode : (clusters.merges[id - leafCount]).node = id := by
      rw [hrec.node_eq _ _ hget]
      omega
    refine ⟨MergeForest.inner clusters clusters.merges[id - leafCount], ?_, ?_, ?_, ?_⟩
    · rw [MergeForest.node?_ofClusters_of_le componentCount clusters hinner, hget, Option.map_some]
    · rw [MergeForest.inner, hnode]
    · rw [MergeForest.inner, hnode]
    · exact .inr ⟨_, Array.getElem_mem hindex, hnode, rfl⟩

theorem Recorded.size_forest (hrec : Recorded leafCount clusters) (componentCount : Nat) :
    (ofClusters leafCount componentCount clusters).size = clusters.parent.size := by
  rw [MergeForest.size_ofClusters, hrec.size_parent]

/-- A node has the parent and the population that were recorded for its cluster. -/
theorem Recorded.of_node? (hrec : Recorded leafCount clusters) {componentCount id : Nat}
    {node : MergeForest.Node W}
    (hnode : (ofClusters leafCount componentCount clusters).node? id = some node) :
    id < clusters.parent.size ∧ node.parent = clusters.parentOf id ∧
      node.population = clusters.populationOf id ∧
      (id < leafCount ∧ node.children = none ∨
        ∃ merge ∈ clusters.merges, merge.node = id ∧
          node.children = some (min merge.left merge.right, max merge.left merge.right)) := by
  have hid : id < clusters.parent.size := by
    rw [← hrec.size_forest componentCount]
    exact (Array.getElem?_eq_some_iff.mp hnode).1
  obtain ⟨other, hother, hspec⟩ := hrec.exists_node componentCount hid
  obtain rfl := Option.some.inj (hnode.symm.trans hother)
  exact ⟨hid, hspec⟩

theorem Recorded.mem_linked_iff (hrec : Recorded leafCount clusters)
    {componentCount id child : Nat} :
    child ∈ (ofClusters leafCount componentCount clusters).linked id ↔
      child < clusters.parent.size ∧ child ≠ id ∧ clusters.parentOf child = id := by
  rw [MergeForest.linked, List.mem_filter, List.mem_range, hrec.size_forest]
  refine and_congr_right fun hchild => ?_
  obtain ⟨node, hnode, hparent, _⟩ := hrec.exists_node componentCount hchild
  simp [hnode, hparent]

/-- A node either is a leaf, which no merge has formed, or has the two parts of its merge as
children. -/
theorem Recorded.childList_cases (hrec : Recorded leafCount clusters) (componentCount id : Nat) :
    ((∀ merge ∈ clusters.merges, merge.node ≠ id) ∧
        (ofClusters leafCount componentCount clusters).childList id = []) ∨
      ∃ merge ∈ clusters.merges, merge.node = id ∧
        (ofClusters leafCount componentCount clusters).childList id =
          [min merge.left merge.right, max merge.left merge.right] := by
  rw [MergeForest.childList]
  rcases Nat.lt_or_ge id clusters.parent.size with hid | hout
  · obtain ⟨node, hnode, _, _, ⟨hleaf, hchildren⟩ | ⟨merge, hmerge, hid, hchildren⟩⟩ :=
      hrec.exists_node componentCount hid
    · refine .inl ⟨fun merge hmerge => ?_, by simp [hnode, hchildren]⟩
      have := (hrec.node_bounds hmerge).1
      omega
    · exact .inr ⟨merge, hmerge, hid, by simp [hnode, hchildren]⟩
  · refine .inl ⟨fun merge hmerge => ?_, ?_⟩
    · exact ((hrec.node_bounds hmerge).2.trans_le hout).ne
    · rw [← hrec.size_forest componentCount] at hout
      have hnone : (ofClusters leafCount componentCount clusters).node? id = none :=
        Array.getElem?_eq_none hout
      simp [hnone]

/-- The links give back the children of every node. -/
theorem Recorded.linked_eq_childList (hrec : Recorded leafCount clusters)
    (componentCount id : Nat) :
    (ofClusters leafCount componentCount clusters).linked id =
      (ofClusters leafCount componentCount clusters).childList id := by
  rcases hrec.childList_cases componentCount id with
    ⟨hnone, hchildren⟩ | ⟨merge, hmerge, rfl, hchildren⟩
  · rw [hchildren, List.eq_nil_iff_forall_not_mem]
    intro child hchild
    obtain ⟨_, hne, hparent⟩ := hrec.mem_linked_iff.mp hchild
    obtain ⟨merge, hmerge, hnode, _⟩ := hrec.part_of child (by omega)
    exact hnone merge hmerge (hnode.symm.trans hparent)
  · have hne := hrec.parts_ne merge hmerge
    obtain ⟨hleft, hright⟩ := hrec.parts_lt merge hmerge
    have hnode := (hrec.node_bounds hmerge).2
    -- both lists increase, so they are equal if they have the same members
    have hlinked : ((ofClusters leafCount componentCount clusters).linked
        merge.node).Pairwise (· < ·) := List.pairwise_lt_range.filter _
    have hparts : [min merge.left merge.right, max merge.left merge.right].Pairwise (· < ·) := by
      simpa using hne
    rw [hchildren]
    refine hlinked.eq_of_mem_iff hparts fun child => ?_
    rw [hrec.mem_linked_iff, hrec.parentOf_eq_node_iff hmerge]
    simp only [List.mem_cons, List.not_mem_nil, or_false]
    omega

/-- Every node but a root is once among the children of its parent, and of no other node. -/
theorem Recorded.count_childList (hrec : Recorded leafCount clusters) (componentCount : Nat)
    {id : Nat} (hid : id < clusters.parent.size) (other : Nat) :
    ((ofClusters leafCount componentCount clusters).childList other).count id =
      if other = clusters.parentOf id ∧ other ≠ id then 1 else 0 := by
  have hnodup : ((ofClusters leafCount componentCount clusters).linked other).Nodup :=
    List.nodup_range.filter _
  rw [← hrec.linked_eq_childList, List.Nodup.count hnodup]
  simp only [hrec.mem_linked_iff, hid, true_and, and_comm, eq_comm, ne_eq]

theorem Recorded.roots_forest (hrec : Recorded leafCount clusters) (componentCount : Nat) :
    (ofClusters leafCount componentCount clusters).roots =
      (List.range clusters.parent.size).filter fun id => clusters.parentOf id = id := by
  rw [MergeForest.roots, hrec.size_forest]
  refine List.filter_congr fun id hid => ?_
  obtain ⟨node, hnode, hparent, _⟩ := hrec.exists_node componentCount (List.mem_range.mp hid)
  rw [hnode, Option.any_some, hparent, beq_eq_decide]

theorem Recorded.length_roots (hrec : Recorded leafCount clusters) (componentCount : Nat) :
    (ofClusters leafCount componentCount clusters).roots.length =
      clusters.current.card := by
  rw [hrec.roots_forest]
  rfl

/-- The slots are filled from the links as the children are recorded. -/
theorem Recorded.slots_forest (hrec : Recorded leafCount clusters) {componentCount id : Nat}
    {node : MergeForest.Node W}
    (hnode : (ofClusters leafCount componentCount clusters).node? id = some node) :
    ((ofClusters leafCount componentCount clusters).linked id).foldl
        MergeForest.enterChild (none, none) =
      (node.children.map Prod.fst, node.children.map Prod.snd) := by
  rw [hrec.linked_eq_childList, MergeForest.childList, hnode, Option.bind_some]
  cases node.children with
  | none => rfl
  | some children => rfl

/-- Links that follow the recorded merges make a binary forest. -/
theorem Recorded.wellFormed (hrec : Recorded leafCount clusters) {componentCount : Nat}
    (hcard : clusters.current.card = componentCount)
    (hcount : componentCount + clusters.merges.size = leafCount) :
    (ofClusters leafCount componentCount clusters).WellFormed := by
  have hsize := hrec.size_parent
  constructor
  case size_eq =>
    rw [hrec.size_forest, hsize]
    simp only [MergeForest.ofClusters]
    omega
  case leaf =>
    intro id hid
    exact ⟨_, MergeForest.node?_ofClusters_of_lt componentCount clusters hid, rfl⟩
  case inner =>
    intro id node hinner hnode
    obtain ⟨_, _, _, ⟨hleaf, _⟩ | ⟨merge, hmerge, rfl, hchildren⟩⟩ := hrec.of_node? hnode
    · exact absurd hleaf (Nat.not_lt.mpr hinner)
    · obtain ⟨hleft, hright⟩ := hrec.parts_lt merge hmerge
      have hne := hrec.parts_ne merge hmerge
      have hlinked : ∀ id, id = merge.left ∨ id = merge.right →
          ((ofClusters leafCount componentCount clusters).node? id).map
            MergeForest.Node.parent = some merge.node := by
        intro id hid
        have hlt : id < clusters.parent.size := by
          have := (hrec.node_bounds hmerge).2
          omega
        obtain ⟨child, hchild, hparent, _⟩ := hrec.exists_node componentCount hlt
        rw [hchild, Option.map_some, hparent, ((hrec.parentOf_eq_node_iff hmerge).mpr hid).2]
      exact ⟨_, _, hchildren, by omega, by omega, hlinked _ (by omega), hlinked _ (by omega)⟩
  case parent =>
    intro id node hnode
    rw [(hrec.of_node? hnode).2.1, hrec.size_forest]
    exact (eq_or_ne _ _).imp_right hrec.parentOf_bounds
  case count_childList =>
    intro id node hnode other
    obtain ⟨hid, hparent, _⟩ := hrec.of_node? hnode
    rw [hparent, hrec.count_childList componentCount hid]
  case slots => exact fun _ _ hnode => hrec.slots_forest hnode
  case length_roots =>
    rw [hrec.length_roots, hcard]
    rfl

end

end Clusters

theorem Graph.Clustered.forest_eq {W : Type} [Weight W] {graph : Graph W} {linkage : Linkage W}
    (hlinkage : graph.Clustered linkage) :
    linkage.forest = MergeForest.ofClusters graph.nodeCount graph.components.count
      linkage.clusters := by
  rw [Linkage.forest, hlinkage.1, hlinkage.2.1]

/-- The forest of a clustering is binary, with one leaf for every node of the graph
and one root for every component, whatever the weights are. -/
theorem Graph.cluster_forest_wellFormed {W : Type} [Weight W] {graph : Graph W}
    {linkage : Linkage W} (hrun : graph.cluster = .ok linkage) :
    linkage.forest.leafCount = graph.nodeCount ∧
      linkage.forest.componentCount = graph.components.count ∧ linkage.forest.WellFormed := by
  obtain ⟨hgraph, hlinkage⟩ := Graph.proper_of_cluster hrun
  have hinv := hlinkage.invariant hgraph
  have hcard := hlinkage.card_current hgraph
  have hcount := hinv.partitioned.card_current
  refine ⟨hlinkage.1, hlinkage.2.1, ?_⟩
  rw [hlinkage.forest_eq]
  exact hinv.recorded.wellFormed hcard (by omega)

/-- Two components and a node alone, with parallel edges, edges in one direction and
weights of either sign. -/
def Graph.mixed : Graph ℚ :=
  ⟨6, [⟨0, 1, 2⟩, ⟨2, 1, 3⟩, ⟨2, 1, -1⟩, ⟨4, 3, 0⟩]⟩

theorem Graph.exists_cluster_mixed :
    ∃ linkage, Graph.mixed.cluster = .ok linkage ∧ linkage.forest.roots = [5, 7, 8] := by
  have hroots : Graph.mixed.cluster.toOption.map (fun linkage => linkage.forest.roots) =
      some [5, 7, 8] := by
    decide +kernel
  exact exists_ok_of_toOption hroots

theorem Graph.cluster_forest_wellFormed_mixed :
    ∃ linkage, Graph.mixed.cluster = .ok linkage ∧ linkage.forest.roots = [5, 7, 8] ∧
      linkage.forest.componentCount = 3 ∧ linkage.forest.WellFormed := by
  obtain ⟨linkage, hrun, hroots⟩ := Graph.exists_cluster_mixed
  obtain ⟨_, hcount, hforest⟩ := Graph.cluster_forest_wellFormed hrun
  exact ⟨linkage, hrun, hroots, hcount.trans (by decide +kernel), hforest⟩

end AverageLinkage
