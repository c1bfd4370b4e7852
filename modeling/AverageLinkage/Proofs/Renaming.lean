import Mathlib
import AverageLinkage.Proofs.ForestShape

/-!
# Clusters under other names

A merge compares the numbers of clusters for equality only.  So it makes no
difference whether the clusters are renamed before or after it, as long as no two
of them get the same name.  A permutation of the nodes of a graph therefore goes
through a whole clustering: the merges and the forest are those of the graph, with
every node under its new name.
-/

namespace AverageLinkage

variable {W : Type}

namespace Edge

def rename (name : Nat → Nat) (edge : Edge W) : Edge W :=
  { source := name edge.source, target := name edge.target, weight := edge.weight }

/-- Both ends are among the given clusters. -/
def Within (ids : Set Nat) (edge : Edge W) : Prop :=
  edge.source ∈ ids ∧ edge.target ∈ ids

variable {name : Nat → Nat} {ids : Set Nat}

theorem touches_rename (hname : Set.InjOn name ids) {node : Nat} (hnode : node ∈ ids)
    {edge : Edge W} (hedge : edge.Within ids) :
    (edge.rename name).touches (name node) = edge.touches node := by
  rw [Bool.eq_iff_iff]
  simp [touches, rename, hname.eq_iff hedge.1 hnode, hname.eq_iff hedge.2 hnode]

theorem joins_rename (hname : Set.InjOn name ids) {left right : Nat} (hleft : left ∈ ids)
    (hright : right ∈ ids) {edge : Edge W} (hedge : edge.Within ids) :
    (edge.rename name).joins (name left) (name right) = edge.joins left right := by
  rw [Bool.eq_iff_iff]
  simp [joins, rename, hname.eq_iff hedge.1 hleft, hname.eq_iff hedge.1 hright,
    hname.eq_iff hedge.2 hleft, hname.eq_iff hedge.2 hright]

theorem parallel_rename (hname : Set.InjOn name ids) {edge other : Edge W}
    (hedge : edge.Within ids) (hother : other.Within ids) :
    (edge.rename name).parallel (other.rename name) = edge.parallel other := by
  rw [Bool.eq_iff_iff]
  simp [parallel, rename, hname.eq_iff hedge.1 hother.1, hname.eq_iff hedge.2 hother.2]

/-- A choice that does not see the names picks the same edges. -/
theorem filter_rename {choice renamed : Edge W → Bool} {edges : List (Edge W)}
    (hchoice : ∀ edge ∈ edges, renamed (edge.rename name) = choice edge) :
    (edges.map (rename name)).filter renamed = (edges.filter choice).map (rename name) := by
  rw [List.filter_map]
  congr 1
  exact List.filter_congr hchoice

theorem any_parallel_rename (hname : Set.InjOn name ids) {edge : Edge W}
    (hedge : edge.Within ids) {edges : List (Edge W)} (hedges : ∀ other ∈ edges, other.Within ids) :
    (edges.map (rename name)).any (edge.rename name).parallel = edges.any edge.parallel := by
  rw [List.any_map, Bool.eq_iff_iff]
  simp only [List.any_eq_true, Function.comp_apply]
  apply exists_congr
  intro other
  apply and_congr_right
  intro hother
  rw [parallel_rename hname hedge (hedges other hother)]

end Edge

namespace Clusters

section

variable [Weight W] {name : Nat → Nat} {ids : Set Nat}

/-- Which edge is heaviest does not depend on the names, since ties go by the order of the edges.
-/
theorem heaviest?_rename (name : Nat → Nat) (edges : List (Edge W)) :
    heaviest? (edges.map (Edge.rename name)) = (heaviest? edges).map (Edge.rename name) := by
  cases edges with
  | nil => rfl
  | cons first rest =>
      simp only [List.map_cons, heaviest?, Option.map_some, Option.some.injEq]
      induction rest generalizing first with
      | nil => rfl
      | cons next rest ih =>
          rw [List.map_cons, List.foldl_cons, List.foldl_cons, ← ih]
          congr 1
          exact (apply_ite (Edge.rename name) _ _ _).symm

/-! ## A merge under other names -/

def Fusion.rename (name : Nat → Nat) (fusion : Fusion W) : Fusion W :=
  { left := name fusion.left
    right := name fusion.right
    node := name fusion.node
    leftShare := fusion.leftShare
    rightShare := fusion.rightShare }

/-- The clusters of a fusion, old and new, are among the given ones. -/
structure Fusion.Within (ids : Set Nat) (fusion : Fusion W) : Prop where
  left_mem : fusion.left ∈ ids
  right_mem : fusion.right ∈ ids
  node_mem : fusion.node ∈ ids

theorem Fusion.move_rename (hname : Set.InjOn name ids) {fusion : Fusion W}
    (hfusion : fusion.Within ids) {cluster : Nat} (hcluster : cluster ∈ ids) (weight : W) :
    (fusion.rename name).move (name cluster) weight =
      (name (fusion.move cluster weight).1, (fusion.move cluster weight).2) := by
  simp only [Fusion.move, Fusion.rename, hname.eq_iff hcluster hfusion.left_mem,
    hname.eq_iff hcluster hfusion.right_mem]
  split
  · rfl
  · split <;> rfl

theorem Fusion.redirect_rename (hname : Set.InjOn name ids) {fusion : Fusion W}
    (hfusion : fusion.Within ids) {edge : Edge W} (hedge : edge.Within ids) :
    (fusion.rename name).redirect (edge.rename name) = (fusion.redirect edge).rename name := by
  simp only [Fusion.redirect, Edge.rename, Fusion.move_rename hname hfusion hedge.1,
    Fusion.move_rename hname hfusion hedge.2]

theorem Fusion.Within.redirect {fusion : Fusion W} (hfusion : fusion.Within ids) {edge : Edge W}
    (hedge : edge.Within ids) : (fusion.redirect edge).Within ids := by
  have hheir : ∀ cluster ∈ ids, heir fusion.left fusion.right fusion.node cluster ∈ ids := by
    intro cluster hcluster
    rw [heir]
    split
    · exact hfusion.node_mem
    · exact hcluster
  rw [Edge.Within, Fusion.source_redirect, Fusion.target_redirect]
  exact ⟨hheir _ hedge.1, hheir _ hedge.2⟩

theorem bundleWeight_rename (hname : Set.InjOn name ids) {edges : List (Edge W)}
    (hedges : ∀ edge ∈ edges, edge.Within ids) {edge : Edge W} (hedge : edge.Within ids) :
    bundleWeight (edges.map (Edge.rename name)) (edge.rename name) = bundleWeight edges edge := by
  rw [bundleWeight, bundleWeight, Edge.filter_rename fun other hother =>
    Edge.parallel_rename hname hedge (hedges other hother)]
  cases edges.filter edge.parallel with
  | nil => rfl
  | cons first rest =>
      simp only [List.map_cons, List.foldl_map]
      rfl

theorem keepFirst_rename (hname : Set.InjOn name ids) {node : Nat} (hnode : node ∈ ids)
    {incident kept edges : List (Edge W)} (hincident : ∀ edge ∈ incident, edge.Within ids)
    (hkept : ∀ edge ∈ kept, edge.Within ids) (hedges : ∀ edge ∈ edges, edge.Within ids) :
    keepFirst (name node) (incident.map (Edge.rename name)) (kept.map (Edge.rename name))
        (edges.map (Edge.rename name)) =
      (keepFirst node incident kept edges).map (Edge.rename name) := by
  induction edges generalizing kept with
  | nil => rfl
  | cons edge rest ih =>
      have hedge := hedges edge List.mem_cons_self
      have hrest : ∀ other ∈ rest, other.Within ids :=
        fun other hother => hedges other (List.mem_cons_of_mem edge hother)
      rw [List.map_cons, keepFirst, keepFirst, Edge.touches_rename hname hnode hedge,
        Edge.any_parallel_rename hname hedge hkept, bundleWeight_rename hname hincident hedge]
      split
      · split
        · exact ih hkept hrest
        · have hmore := ih (List.forall_mem_cons.mpr ⟨hedge, hkept⟩) hrest
          rw [List.map_cons, ← hmore]
          rfl
      · rw [List.map_cons, ih hkept hrest]

/-- Names that tell clusters apart tell bundles apart. -/
theorem bundleAt_rename (hname : Set.InjOn name ids) {node : Nat} (hnode : node ∈ ids)
    {edges : List (Edge W)} (hedges : ∀ edge ∈ edges, edge.Within ids) :
    bundleAt (name node) (edges.map (Edge.rename name)) =
      (bundleAt node edges).map (Edge.rename name) := by
  have hincident : (edges.map (Edge.rename name)).filter (·.touches (name node)) =
      (edges.filter (·.touches node)).map (Edge.rename name) := by
    apply Edge.filter_rename
    intro edge hedge
    exact Edge.touches_rename hname hnode (hedges edge hedge)
  have hwithin : ∀ edge ∈ edges.filter (·.touches node), edge.Within ids :=
    fun edge hedge => hedges edge (List.mem_of_mem_filter hedge)
  have hnone : ∀ edge ∈ ([] : List (Edge W)), edge.Within ids := by simp
  rw [bundleAt, bundleAt, hincident]
  exact keepFirst_rename hname hnode hwithin hnone hedges

/-- It makes no difference whether clusters are renamed before or after a merge. -/
theorem Fusion.apply_rename (hname : Set.InjOn name ids) {fusion : Fusion W}
    (hfusion : fusion.Within ids) {edges : List (Edge W)}
    (hedges : ∀ edge ∈ edges, edge.Within ids) :
    (fusion.rename name).apply (edges.map (Edge.rename name)) =
      (fusion.apply edges).map (Edge.rename name) := by
  have hfilter : (edges.map (Edge.rename name)).filter
      (fun edge => !edge.joins (name fusion.left) (name fusion.right)) =
      (edges.filter fun edge => !edge.joins fusion.left fusion.right).map (Edge.rename name) := by
    apply Edge.filter_rename
    intro edge hedge
    rw [Edge.joins_rename hname hfusion.left_mem hfusion.right_mem (hedges edge hedge)]
  have hkept : ∀ edge ∈ edges.filter (fun edge => !edge.joins fusion.left fusion.right),
      edge.Within ids :=
    fun edge hedge => hedges edge (List.mem_of_mem_filter hedge)
  have hredirect : ((edges.filter fun edge => !edge.joins fusion.left fusion.right).map
      (Edge.rename name)).map (fusion.rename name).redirect =
      ((edges.filter fun edge => !edge.joins fusion.left fusion.right).map
        fusion.redirect).map (Edge.rename name) := by
    rw [List.map_map, List.map_map]
    apply List.map_congr_left
    intro edge hedge
    exact Fusion.redirect_rename hname hfusion (hkept edge hedge)
  rw [Fusion.apply, Fusion.apply]
  calc bundleAt (name fusion.node) (((edges.map (Edge.rename name)).filter
          fun edge => !edge.joins (name fusion.left) (name fusion.right)).map
            (fusion.rename name).redirect)
      = bundleAt (name fusion.node) (((edges.filter
          fun edge => !edge.joins fusion.left fusion.right).map
            fusion.redirect).map (Edge.rename name)) := by rw [hfilter, hredirect]
    _ = (bundleAt fusion.node ((edges.filter
          fun edge => !edge.joins fusion.left fusion.right).map
            fusion.redirect)).map (Edge.rename name) := by
        apply bundleAt_rename hname hfusion.node_mem
        intro moved hmoved
        obtain ⟨edge, hedge, rfl⟩ := List.mem_map.mp hmoved
        exact hfusion.redirect (hkept edge hedge)

end

end Clusters

/-! ## Permuted nodes -/

def Merge.rename (name : Nat → Nat) (merge : Merge W) : Merge W :=
  { merge with left := name merge.left, right := name merge.right }

/-- The same edges, in the same order, between nodes of other names. -/
def Graph.rename (name : Nat → Nat) (graph : Graph W) : Graph W :=
  { graph with edges := graph.edges.map (Edge.rename name) }

theorem perm_lt_iff {perm : Equiv.Perm Nat} {bound : Nat}
    (hfixed : ∀ id, bound ≤ id → perm id = id) {id : Nat} : perm id < bound ↔ id < bound := by
  constructor
  · intro hlt
    by_contra hout
    rw [hfixed id (Nat.le_of_not_lt hout)] at hlt
    exact hout hlt
  · intro hlt
    by_contra hout
    have hsame : perm id = id := by
      apply perm.injective
      exact hfixed (perm id) (Nat.le_of_not_lt hout)
    rw [hsame] at hout
    exact hout hlt

theorem Graph.Proper.rename {graph : Graph W} (hgraph : graph.Proper) {perm : Equiv.Perm Nat}
    (hfixed : ∀ id, graph.nodeCount ≤ id → perm id = id) : (graph.rename perm).Proper := by
  intro renamed hrenamed
  obtain ⟨edge, hedge, rfl⟩ := List.mem_map.mp hrenamed
  obtain ⟨hne, hsource, htarget⟩ := hgraph edge hedge
  exact ⟨perm.injective.ne hne, (perm_lt_iff hfixed).mpr hsource, (perm_lt_iff hfixed).mpr htarget⟩

namespace Clusters

/-- The second state is the first one with every cluster under its new name. -/
structure Renamed (perm : Equiv.Perm Nat) (clusters other : Clusters W) : Prop where
  edges_eq : other.edges = clusters.edges.map (Edge.rename perm)
  merges_eq : other.merges = clusters.merges.map (Merge.rename perm)
  size_parent : other.parent.size = clusters.parent.size
  size_population : other.population.size = clusters.population.size
  parentOf_eq : ∀ id, other.parentOf (perm id) = perm (clusters.parentOf id)
  populationOf_eq : ∀ id, other.populationOf (perm id) = clusters.populationOf id

/-- At the start only the items are renamed. -/
theorem renamed_ofGraph {graph : Graph W} {perm : Equiv.Perm Nat}
    (hfixed : ∀ id, graph.nodeCount ≤ id → perm id = id) :
    Renamed perm (ofGraph graph) (ofGraph (graph.rename perm)) := by
  constructor
  case parentOf_eq =>
    intro id
    rw [parentOf_ofGraph, parentOf_ofGraph]
  case populationOf_eq =>
    intro id
    simp only [populationOf, ofGraph, Graph.rename, Array.getD_eq_getD_getElem?,
      Array.getElem?_replicate, perm_lt_iff hfixed]
  all_goals simp [ofGraph, Graph.rename]

section

variable [Weight W]

theorem Renamed.fusion_eq {perm : Equiv.Perm Nat} {clusters other : Clusters W}
    (hrenamed : Renamed perm clusters other)
    (hnode : perm clusters.parent.size = clusters.parent.size) (edge : Edge W) :
    other.fusion (edge.rename perm) = (clusters.fusion edge).rename perm := by
  simp only [fusion, Fusion.rename, Edge.rename, hrenamed.populationOf_eq, hrenamed.size_parent,
    hnode]

/-- A merge keeps the names apart: the new cluster has the same number in both states,
which is above those that the permutation moves. -/
theorem Renamed.merge {perm : Equiv.Perm Nat} {clusters other : Clusters W}
    (hrenamed : Renamed perm clusters other)
    (hfixed : ∀ id, clusters.parent.size ≤ id → perm id = id)
    (hsize : clusters.population.size = clusters.parent.size) {edge : Edge W}
    (hsource : edge.source < clusters.parent.size)
    (htarget : edge.target < clusters.parent.size) :
    Renamed perm (clusters.merge edge) (other.merge (edge.rename perm)) := by
  have hnode := hfixed _ le_rfl
  constructor
  · have hname : Set.InjOn perm Set.univ := perm.injective.injOn
    rw [edges_merge, edges_merge, hrenamed.fusion_eq hnode, hrenamed.edges_eq]
    exact Fusion.apply_rename hname ⟨trivial, trivial, trivial⟩ fun _ _ => ⟨trivial, trivial⟩
  · simp [Clusters.merge, hrenamed.merges_eq, hrenamed.size_parent, Merge.rename, Edge.rename]
  · rw [size_parent_merge, size_parent_merge, hrenamed.size_parent]
  · rw [size_population_merge, size_population_merge, hrenamed.size_population]
  · intro id
    have hsource' : (edge.rename perm).source < other.parent.size := by
      rw [hrenamed.size_parent]
      exact (perm_lt_iff hfixed).mpr hsource
    have htarget' : (edge.rename perm).target < other.parent.size := by
      rw [hrenamed.size_parent]
      exact (perm_lt_iff hfixed).mpr htarget
    rw [parentOf_merge hsource' htarget', parentOf_merge hsource htarget, hrenamed.size_parent,
      hrenamed.parentOf_eq, apply_ite perm, hnode]
    simp only [Edge.rename, perm.injective.eq_iff]
  · intro id
    have hid : perm id = clusters.parent.size ↔ id = clusters.parent.size := by
      calc perm id = clusters.parent.size
          ↔ perm id = perm clusters.parent.size := by rw [hnode]
        _ ↔ id = clusters.parent.size := perm.injective.eq_iff
    rw [populationOf_merge, populationOf_merge, hrenamed.size_population, hsize]
    simp only [hid, Edge.rename, hrenamed.populationOf_eq]

/-- The run on the permuted graph goes through the renamed states. -/
theorem exists_renamed_of_reached {graph : Graph W} (hgraph : graph.Proper)
    {perm : Equiv.Perm Nat} (hfixed : ∀ id, graph.nodeCount ≤ id → perm id = id)
    {clusters : Clusters W} (hreached : Reached (ofGraph graph) clusters) :
    ∃ other, Reached (ofGraph (graph.rename perm)) other ∧ Renamed perm clusters other := by
  apply Reached.induction (motive := fun clusters => ∃ other,
    Reached (ofGraph (graph.rename perm)) other ∧ Renamed perm clusters other) _ _ hreached
  · rintro clusters edge hreached ⟨other, hother, hrenamed⟩ hheaviest
    have hinv := hreached.invariant hgraph
    have hends := hinv.live.ends_lt hgraph hinv.partitioned (mem_of_heaviest? hheaviest)
    have hheaviest' : heaviest? other.edges = some (edge.rename perm) := by
      rw [hrenamed.edges_eq, heaviest?_rename, hheaviest, Option.map_some]
    have hmoved : ∀ id, clusters.parent.size ≤ id → perm id = id := by
      intro id hid
      apply hfixed
      rw [hinv.recorded.size_parent] at hid
      omega
    exact ⟨_, hother.merge hheaviest',
      hrenamed.merge hmoved hinv.recorded.size_population hends.1 hends.2⟩
  · exact ⟨_, reached_self _, renamed_ofGraph hfixed⟩

end

end Clusters

/-! ## The forest of a permuted graph -/

namespace MergeForest

/-- The same node with its parent and its children under other names.  The children
are in the order of the new names. -/
def Node.rename (name : Nat → Nat) (node : Node W) : Node W :=
  { parent := name node.parent
    children := node.children.map fun children =>
      (min (name children.1) (name children.2), max (name children.1) (name children.2))
    height := node.height
    population := node.population }

section

variable [Weight W] {perm : Equiv.Perm Nat} {clusters other : Clusters W}

theorem placeholder_rename (name : Nat → Nat) (merges : Array (Merge W)) :
    placeholder (merges.map (Merge.rename name)) = placeholder merges := by
  simp only [placeholder, Array.getElem?_map]
  cases merges[0]? with
  | none => rfl
  | some first => rfl

theorem leaf_renamed (hrenamed : Clusters.Renamed perm clusters other) (id : Nat) :
    leaf other (perm id) = (leaf clusters id).rename perm := by
  simp only [leaf, Node.rename, hrenamed.parentOf_eq, hrenamed.populationOf_eq,
    hrenamed.merges_eq, placeholder_rename, Option.map_none]

theorem inner_renamed (hrenamed : Clusters.Renamed perm clusters other) {merge : Merge W}
    (hnode : perm merge.node = merge.node) :
    inner other (merge.rename perm) = (inner clusters merge).rename perm := by
  have hparent := hrenamed.parentOf_eq merge.node
  have hpopulation := hrenamed.populationOf_eq merge.node
  rw [hnode] at hparent hpopulation
  have hchildren : (min (perm merge.left) (perm merge.right),
      max (perm merge.left) (perm merge.right)) =
      (min (perm (min merge.left merge.right)) (perm (max merge.left merge.right)),
        max (perm (min merge.left merge.right)) (perm (max merge.left merge.right))) := by
    rcases le_total merge.left merge.right with hle | hle
    · rw [min_eq_left hle, max_eq_right hle]
    · rw [min_eq_right hle, max_eq_left hle, min_comm, max_comm]
  simp only [inner, Merge.rename, Node.rename, hparent, hpopulation, hchildren,
    hrenamed.merges_eq, placeholder_rename, Option.map_some]

/-- Every node of the second forest is one of the first forest under its new name. -/
theorem node?_renamed {leafCount : Nat} (componentCount otherCount : Nat)
    (hrenamed : Clusters.Renamed perm clusters other)
    (hrec : Clusters.Recorded leafCount clusters)
    (hfixed : ∀ id, leafCount ≤ id → perm id = id) (id : Nat) :
    (ofClusters leafCount otherCount other).node? (perm id) =
      ((ofClusters leafCount componentCount clusters).node? id).map (Node.rename perm) := by
  rcases Nat.lt_or_ge id leafCount with hleaf | hinner
  · rw [node?_ofClusters_of_lt _ _ ((perm_lt_iff hfixed).mpr hleaf),
      node?_ofClusters_of_lt _ _ hleaf, leaf_renamed hrenamed, Option.map_some]
  · rw [hfixed id hinner, node?_ofClusters_of_le _ _ hinner, node?_ofClusters_of_le _ _ hinner,
      hrenamed.merges_eq, Array.getElem?_map, Option.map_map, Option.map_map]
    cases hmerge : clusters.merges[id - leafCount]? with
    | none => rfl
    | some merge =>
        have hnode := hfixed merge.node (hrec.node_bounds (Array.mem_of_getElem? hmerge)).1
        simp only [Option.map_some, Function.comp_apply, inner_renamed hrenamed hnode]

end

end MergeForest

/-- A permutation of the nodes goes through a clustering, whatever the weights are.
The permuted graph is clustered by the same merges under the new names and at the
same heights, and every node of its forest is one of the forest of the graph under
its new name. -/
theorem Graph.cluster_rename [Weight W] {graph : Graph W} {linkage : Linkage W}
    (hrun : graph.cluster = .ok linkage) {perm : Equiv.Perm Nat}
    (hfixed : ∀ id, graph.nodeCount ≤ id → perm id = id) :
    ∃ renamed, (graph.rename perm).cluster = .ok renamed ∧
      renamed.merges = linkage.merges.map (Merge.rename perm) ∧
      ∀ id, renamed.forest.node? (perm id) =
        (linkage.forest.node? id).map (MergeForest.Node.rename perm) := by
  obtain ⟨hgraph, hlinkage⟩ := Graph.proper_of_cluster hrun
  have hfits : 2 * (graph.rename perm).nodeCount ≤ Linkage.idLimit :=
    (Graph.exists_cluster_iff.mp ⟨linkage, hrun⟩).1
  obtain ⟨other, hreached, hrenamed⟩ :=
    Clusters.exists_renamed_of_reached hgraph hfixed hlinkage.reached
  have hedges : other.edges = [] := by
    rw [hrenamed.edges_eq, hlinkage.edges_eq_nil hgraph, List.map_nil]
  obtain ⟨renamed, hcluster, rfl⟩ :=
    Graph.exists_cluster_of_reached hfits (hgraph.rename hfixed) hreached hedges
  refine ⟨renamed, hcluster, hrenamed.merges_eq, ?_⟩
  intro id
  rw [(Graph.proper_of_cluster hcluster).2.forest_eq, hlinkage.forest_eq]
  exact MergeForest.node?_renamed _ _ hrenamed (hlinkage.invariant hgraph).recorded hfixed id

/-- Two nodes of different components exchange their names. -/
theorem Graph.cluster_rename_mixed :
    (∀ id, 6 ≤ id → Equiv.swap 1 4 id = id) ∧
    ∃ linkage renamed, Graph.mixed.cluster = .ok linkage ∧
      (Graph.mixed.rename (Equiv.swap 1 4)).cluster = .ok renamed ∧
      renamed.merges = #[⟨6, 2, 4, 3⟩, ⟨7, 0, 6, 1⟩, ⟨8, 1, 3, 0⟩] ∧
      ∀ id, renamed.forest.node? (Equiv.swap 1 4 id) =
        (linkage.forest.node? id).map (MergeForest.Node.rename (Equiv.swap 1 4)) := by
  have hfixed : ∀ id, 6 ≤ id → Equiv.swap 1 4 id = id :=
    fun id hid => Equiv.swap_apply_of_ne_of_ne (by omega) (by omega)
  have hresult : Graph.mixed.cluster.toOption.map Linkage.merges =
      some #[⟨6, 2, 1, 3⟩, ⟨7, 0, 6, 1⟩, ⟨8, 4, 3, 0⟩] := by
    decide +kernel
  obtain ⟨linkage, hrun, hmerges⟩ := exists_ok_of_toOption hresult
  obtain ⟨renamed, hcluster, hrenamed, hnodes⟩ := Graph.cluster_rename hrun hfixed
  rw [hmerges] at hrenamed
  exact ⟨hfixed, linkage, renamed, hrun, hcluster, hrenamed.trans (by decide +kernel), hnodes⟩

end AverageLinkage
