import Mathlib
import AverageLinkage.Proofs.DenseLinkage
import AverageLinkage.Proofs.HeaviestEdge
import AverageLinkage.Proofs.Renaming

/-!
# Components are clustered independently

The components of a graph share one list of live edges and one numbering of
clusters, but none of them sees the others.  A run on the whole graph is compared
with the run on the edges of one component alone.  Each merge inside of the
component is the next merge of the second run, where its clusters have other numbers,
and each merge outside of it leaves the edges inside as they are.  So the merges
inside of the component are those of the component alone.  The heaviest edge of the
graph is the heaviest one of its component only if weights are compared like numbers,
so no weight that is not a number may come up.
-/

namespace AverageLinkage

variable {W : Type}

/-! ## Parts of a graph -/

namespace Graph

/-- The edges between nodes of the given set, in the same order. -/
def restrict (graph : Graph W) (nodes : Finset Nat) : Graph W :=
  { graph with
    edges := graph.edges.filter fun edge => edge.source ∈ nodes ∧ edge.target ∈ nodes }

/-- The nodes are one class of connected nodes of the graph. -/
def IsComponent (graph : Graph W) (nodes : Finset Nat) : Prop :=
  ∃ node < graph.nodeCount, ∀ other, other ∈ nodes ↔ graph.Connected node other

/-- No edge leads into the given set or out of it. -/
def Closed (graph : Graph W) (nodes : Finset Nat) : Prop :=
  ∀ edge ∈ graph.edges, edge.source ∈ nodes ↔ edge.target ∈ nodes

/-- No edge leads out of a component. -/
theorem IsComponent.closed {graph : Graph W} {nodes : Finset Nat}
    (hnodes : graph.IsComponent nodes) : graph.Closed nodes := by
  obtain ⟨node, _, hmem⟩ := hnodes
  intro edge hedge
  have hends := connected_of_mem hedge
  rw [hmem, hmem]
  exact ⟨fun hsource => hsource.trans hends, fun htarget => htarget.trans hends.symm⟩

theorem Closed.mem_iff {graph : Graph W} {nodes : Finset Nat} (hclosed : graph.Closed nodes)
    {left right : Nat} (hconnected : graph.Connected left right) : left ∈ nodes ↔ right ∈ nodes :=
  iff_of_eq (hconnected.eq_of_adjacent (· ∈ nodes) fun edge hedge => propext (hclosed edge hedge))

theorem mem_edges_restrict {graph : Graph W} {nodes : Finset Nat} {edge : Edge W} :
    edge ∈ (graph.restrict nodes).edges ↔
      edge ∈ graph.edges ∧ edge.source ∈ nodes ∧ edge.target ∈ nodes := by
  simp [restrict]

theorem Closed.restrict {graph : Graph W} {nodes : Finset Nat} (hclosed : graph.Closed nodes) :
    (graph.restrict nodes).Closed nodes :=
  fun edge hedge => hclosed edge (mem_edges_restrict.mp hedge).1

theorem Proper.restrict {graph : Graph W} (hgraph : graph.Proper) (nodes : Finset Nat) :
    (graph.restrict nodes).Proper :=
  fun edge hedge => hgraph edge (mem_edges_restrict.mp hedge).1

end Graph

namespace Clusters

/-! ## Merges and the edges of one side -/

def onSide (side : Nat → Bool) (edges : List (Edge W)) : List (Edge W) :=
  edges.filter fun edge => side edge.source

theorem onSide_cons_of_pos {side : Nat → Bool} {edge : Edge W} (hedge : side edge.source = true)
    (edges : List (Edge W)) : onSide side (edge :: edges) = edge :: onSide side edges :=
  List.filter_cons_of_pos hedge

theorem onSide_cons_of_neg {side : Nat → Bool} {edge : Edge W} (hedge : ¬side edge.source = true)
    (edges : List (Edge W)) : onSide side (edge :: edges) = onSide side edges :=
  List.filter_cons_of_neg hedge

/-- Parallel edges are on the same side. -/
theorem side_and_parallel {side : Nat → Bool} {edge : Edge W} (hedge : side edge.source = true)
    (other : Edge W) : (side other.source && edge.parallel other) = edge.parallel other := by
  by_cases hparallel : edge.parallel other = true
  · have hsource : edge.source = other.source := by
      simp only [Edge.parallel, Bool.and_eq_true, beq_iff_eq] at hparallel
      exact hparallel.1
    rw [← hsource, hedge, Bool.true_and]
  · simp [hparallel]

theorem any_parallel_onSide {side : Nat → Bool} {edge : Edge W} (hedge : side edge.source = true)
    (edges : List (Edge W)) : (onSide side edges).any edge.parallel = edges.any edge.parallel := by
  rw [onSide, List.any_filter]
  congr 1
  funext other
  exact side_and_parallel hedge other

section

variable [Weight W]

/-- Edges on the other side do not count for a bundle. -/
theorem bundleWeight_onSide {side : Nat → Bool} {edge : Edge W} (hedge : side edge.source = true)
    (edges : List (Edge W)) : bundleWeight (onSide side edges) edge = bundleWeight edges edge := by
  have hfilter : (onSide side edges).filter edge.parallel = edges.filter edge.parallel := by
    rw [onSide, List.filter_filter]
    apply List.filter_congr
    intro other _
    rw [Bool.and_comm, side_and_parallel hedge]
  rw [bundleWeight, bundleWeight, hfilter]

/-- Bundles are joined on each side on their own. -/
theorem onSide_keepFirst (side : Nat → Bool) (node : Nat) (incident kept edges : List (Edge W)) :
    onSide side (keepFirst node incident kept edges) =
      keepFirst node (onSide side incident) (onSide side kept) (onSide side edges) := by
  induction edges generalizing kept with
  | nil => rfl
  | cons edge rest ih =>
      rw [keepFirst]
      let bundled : Edge W := { edge with weight := bundleWeight incident edge }
      by_cases hedge : side edge.source = true
      · have hbundled : side bundled.source = true := hedge
        rw [onSide_cons_of_pos hedge rest, keepFirst, any_parallel_onSide hedge,
          bundleWeight_onSide hedge]
        split
        · split
          · exact ih kept
          · rw [onSide_cons_of_pos hbundled, ih, onSide_cons_of_pos hedge]
        · rw [onSide_cons_of_pos hedge, ih]
      · have hbundled : ¬side bundled.source = true := hedge
        rw [onSide_cons_of_neg hedge rest]
        split
        · split
          · exact ih kept
          · rw [onSide_cons_of_neg hbundled, ih, onSide_cons_of_neg hedge]
        · rw [onSide_cons_of_neg hedge, ih]

/-- A merge of clusters of one side acts on each side on its own. -/
theorem Fusion.onSide_apply {side : Nat → Bool} {fusion : Fusion W}
    (hleft : side fusion.left = side fusion.node) (hright : side fusion.right = side fusion.node)
    (edges : List (Edge W)) :
    onSide side (fusion.apply edges) = fusion.apply (onSide side edges) := by
  have hredirect : ∀ edge : Edge W, side (fusion.redirect edge).source = side edge.source := by
    intro edge
    rw [Fusion.source_redirect, heir]
    split
    · next hparts =>
        rcases hparts with hparts | hparts
        · rw [hparts, hleft]
        · rw [hparts, hright]
    · rfl
  have hmoved : onSide side ((edges.filter fun edge =>
      !edge.joins fusion.left fusion.right).map fusion.redirect) =
      ((onSide side edges).filter fun edge =>
        !edge.joins fusion.left fusion.right).map fusion.redirect := by
    rw [onSide, onSide, List.filter_map, List.filter_filter, List.filter_filter]
    congr 1
    apply List.filter_congr
    intro edge _
    rw [Function.comp_apply, hredirect, Bool.and_comm]
  have hincident : ∀ others : List (Edge W), onSide side (others.filter (·.touches fusion.node)) =
      (onSide side others).filter (·.touches fusion.node) := by
    intro others
    exact List.filter_comm _ _ others
  rw [Fusion.apply, Fusion.apply, ← hmoved, bundleAt, bundleAt, onSide_keepFirst, hincident]
  rfl

theorem keepFirst_of_not_touches {node : Nat} (incident kept : List (Edge W))
    {edges : List (Edge W)} (hedges : ∀ edge ∈ edges, edge.touches node = false) :
    keepFirst node incident kept edges = edges := by
  induction edges with
  | nil => rfl
  | cons edge rest ih =>
      rw [keepFirst, hedges edge List.mem_cons_self, if_neg Bool.false_ne_true,
        ih fun other hother => hedges other (List.mem_cons_of_mem edge hother)]

/-- A merge leaves the edges between clusters that it has nothing to do with as they
are. -/
theorem Fusion.apply_of_notMem {ids : Set Nat} {fusion : Fusion W} (hleft : fusion.left ∉ ids)
    (hright : fusion.right ∉ ids) (hnode : fusion.node ∉ ids) {edges : List (Edge W)}
    (hedges : ∀ edge ∈ edges, edge.Within ids) : fusion.apply edges = edges := by
  have hfilter : edges.filter (fun edge => !edge.joins fusion.left fusion.right) = edges := by
    rw [List.filter_eq_self]
    intro edge hedge
    have hends := hedges edge hedge
    simp [Edge.joins, ne_of_mem_of_not_mem hends.1 hleft, ne_of_mem_of_not_mem hends.1 hright]
  have hredirect : ∀ edge ∈ edges, fusion.redirect edge = edge := by
    intro edge hedge
    have hends := hedges edge hedge
    simp only [Fusion.redirect]
    rw [fusion.move_of_ne edge.weight (ne_of_mem_of_not_mem hends.1 hleft)
        (ne_of_mem_of_not_mem hends.1 hright),
      fusion.move_of_ne edge.weight (ne_of_mem_of_not_mem hends.2 hleft)
        (ne_of_mem_of_not_mem hends.2 hright)]
  have htouches : ∀ edge ∈ edges, edge.touches fusion.node = false := by
    intro edge hedge
    have hends := hedges edge hedge
    simp [Edge.touches, ne_of_mem_of_not_mem hends.1 hnode, ne_of_mem_of_not_mem hends.2 hnode]
  calc fusion.apply edges
      = bundleAt fusion.node (edges.map fusion.redirect) := by rw [Fusion.apply, hfilter]
    _ = bundleAt fusion.node edges := by rw [List.map_congr_left hredirect, List.map_id']
    _ = edges := keepFirst_of_not_touches _ _ htouches

end

/-! ## Clusters inside of a set of nodes -/

def inside (clusters : Clusters W) (nodes : Finset Nat) (id : Nat) : Bool :=
  clusters.members id ⊆ nodes

def insiders (clusters : Clusters W) (nodes : Finset Nat) : Set Nat :=
  {id | id ∈ clusters.current ∧ clusters.inside nodes id = true}

theorem inside_iff {clusters : Clusters W} {nodes : Finset Nat} {id : Nat} :
    clusters.inside nodes id = true ↔ clusters.members id ⊆ nodes :=
  decide_eq_true_iff

theorem size_notMem_insiders (clusters : Clusters W) (nodes : Finset Nat) :
    clusters.parent.size ∉ clusters.insiders nodes := by
  intro hmem
  exact lt_irrefl _ (mem_current.mp hmem.1).1

variable {graph : Graph W} {nodes : Finset Nat} {clusters : Clusters W}

/-- The leaves of a cluster are connected, so each of them tells where it is. -/
theorem Invariant.inside_iff_mem (hinv : Invariant graph clusters) (hclosed : graph.Closed nodes)
    {id leaf : Nat} (hid : id < clusters.parent.size) (hleaf : leaf ∈ clusters.members id) :
    clusters.inside nodes id = true ↔ leaf ∈ nodes := by
  rw [inside_iff]
  constructor
  · intro hsubset
    exact hsubset hleaf
  · intro hmem other hother
    exact (hclosed.mem_iff (hinv.live.connected id hid leaf hleaf other hother)).mp hmem

/-- No live edge leads into a closed set of nodes or out of it. -/
theorem Invariant.inside_target (hinv : Invariant graph clusters) (hgraph : graph.Proper)
    (hclosed : graph.Closed nodes) {edge : Edge W} (hedge : edge ∈ clusters.edges) :
    clusters.inside nodes edge.target = clusters.inside nodes edge.source := by
  have hends := hinv.live.ends_lt hgraph hinv.partitioned hedge
  obtain ⟨original, horiginal, hsource, htarget⟩ :=
    hinv.live.exists_leaves hgraph hinv.partitioned hedge
  rw [Bool.eq_iff_iff, hinv.inside_iff_mem hclosed hends.1 hsource,
    hinv.inside_iff_mem hclosed hends.2 htarget]
  exact (hclosed original horiginal).symm

/-- The edges of a part of the graph join clusters inside of the part. -/
theorem Invariant.within_insiders (hinv : Invariant (graph.restrict nodes) clusters)
    (hgraph : graph.Proper) (hclosed : graph.Closed nodes) {edge : Edge W}
    (hedge : edge ∈ clusters.edges) : edge.Within (clusters.insiders nodes) := by
  have hends := hinv.live.ends_mem (hgraph.restrict nodes) hinv.partitioned hedge
  obtain ⟨original, horiginal, hsource, htarget⟩ :=
    hinv.live.exists_leaves (hgraph.restrict nodes) hinv.partitioned hedge
  have hnodes := (Graph.mem_edges_restrict.mp horiginal).2
  have hleft := hinv.inside_iff_mem hclosed.restrict (mem_current.mp hends.1).1 hsource
  have hright := hinv.inside_iff_mem hclosed.restrict (mem_current.mp hends.2).1 htarget
  exact ⟨⟨hends.1, hleft.mpr hnodes.1⟩, hends.2, hright.mpr hnodes.2⟩

section

variable [Weight W]

theorem inside_merge_of_lt (clusters : Clusters W) (edge : Edge W) (nodes : Finset Nat) {id : Nat}
    (hid : id < clusters.parent.size) :
    (clusters.merge edge).inside nodes id = clusters.inside nodes id := by
  rw [inside, inside, members_merge_of_lt clusters edge hid]

/-- A merge stays on one side of a closed set of nodes. -/
theorem Invariant.inside_merge_self (hinv : Invariant graph clusters) (hgraph : graph.Proper)
    (hclosed : graph.Closed nodes) {edge : Edge W} (hedge : edge ∈ clusters.edges) :
    (clusters.merge edge).inside nodes clusters.parent.size =
      clusters.inside nodes edge.source := by
  have htarget := hinv.inside_target hgraph hclosed hedge
  rw [Bool.eq_iff_iff, inside_iff, inside_iff] at htarget
  rw [Bool.eq_iff_iff, inside_iff, inside_iff, members_merge_self, Finset.union_subset_iff, htarget,
    and_self]

/-- A merge acts on the edges inside of a closed set of nodes on their own. -/
theorem Invariant.onSide_edges_merge (hinv : Invariant graph clusters) (hgraph : graph.Proper)
    (hclosed : graph.Closed nodes) {edge : Edge W} (hedge : edge ∈ clusters.edges) :
    onSide ((clusters.merge edge).inside nodes) (clusters.merge edge).edges =
      (clusters.fusion edge).apply (onSide (clusters.inside nodes) clusters.edges) := by
  have hends := hinv.live.ends_lt hgraph hinv.partitioned hedge
  have hnode := hinv.inside_merge_self hgraph hclosed hedge
  have hleft : (clusters.merge edge).inside nodes (clusters.fusion edge).left =
      (clusters.merge edge).inside nodes (clusters.fusion edge).node := by
    rw [left_fusion, node_fusion, hnode, inside_merge_of_lt clusters edge nodes hends.1]
  have hright : (clusters.merge edge).inside nodes (clusters.fusion edge).right =
      (clusters.merge edge).inside nodes (clusters.fusion edge).node := by
    rw [right_fusion, node_fusion, hnode, inside_merge_of_lt clusters edge nodes hends.2,
      hinv.inside_target hgraph hclosed hedge]
  have hkept : onSide ((clusters.merge edge).inside nodes) clusters.edges =
      onSide (clusters.inside nodes) clusters.edges := by
    apply List.filter_congr
    intro other hother
    exact inside_merge_of_lt clusters edge nodes
      (hinv.live.ends_lt hgraph hinv.partitioned hother).1
  rw [edges_merge, Fusion.onSide_apply hleft hright, hkept]

end

/-! ## The run on a part of the graph -/

/-- A state of the run on a part of a graph keeps up with a state of the run on the
whole graph.  The clusters inside of the part are known in the whole under the names
given by `name`. -/
structure Follows (nodes : Finset Nat) (name : Nat → Nat) (whole part : Clusters W) : Prop where
  edges_eq : onSide (whole.inside nodes) whole.edges = part.edges.map (Edge.rename name)
  members_eq : ∀ id ∈ part.insiders nodes, whole.members (name id) = part.members id
  name_lt : ∀ id ∈ part.insiders nodes, name id < whole.parent.size
  leafMerges_eq : part.leafMerges =
    whole.leafMerges.filter fun merge => merge.1 ⊆ nodes ∧ merge.2.1 ⊆ nodes

/-- At the start every node has its own name in the part. -/
theorem follows_ofGraph (hclosed : graph.Closed nodes) :
    Follows nodes id (ofGraph graph) (ofGraph (graph.restrict nodes)) := by
  constructor
  · have hrename : (ofGraph (graph.restrict nodes)).edges.map (Edge.rename id) =
        (graph.restrict nodes).edges := List.map_id _
    rw [hrename]
    apply List.filter_congr
    intro edge hedge
    have hends := hclosed edge hedge
    rw [Bool.eq_iff_iff, inside_iff, members_ofGraph, Finset.singleton_subset_iff,
      decide_eq_true_iff, ← hends, and_self]
  · intro cluster _
    rw [members_ofGraph, members_ofGraph, id]
  · intro cluster hcluster
    exact (mem_current.mp hcluster.1).1
  · rfl

variable {name : Nat → Nat} {whole part : Clusters W}

/-- Clusters inside of the part keep different names. -/
theorem Follows.injOn (hfollows : Follows nodes name whole part)
    (hpart : Invariant (graph.restrict nodes) part) : Set.InjOn name (part.insiders nodes) := by
  intro left hleft right hright heq
  apply hpart.partitioned.members_injOn hpart.recorded hleft.1 hright.1
  rw [← hfollows.members_eq left hleft, ← hfollows.members_eq right hright, heq]

theorem Follows.populationOf_eq (hfollows : Follows nodes name whole part)
    (hwhole : Invariant graph whole) (hpart : Invariant (graph.restrict nodes) part) {id : Nat}
    (hid : id ∈ part.insiders nodes) : whole.populationOf (name id) = part.populationOf id := by
  rw [hwhole.partitioned.population_eq _ (hfollows.name_lt id hid), hfollows.members_eq id hid,
    hpart.partitioned.population_eq _ (mem_current.mp hid.1).1]

/-- The clusters of the part have the same names after a merge.  Its new cluster is
known in the whole as the new cluster of the whole. -/
def extend (name : Nat → Nat) (whole part : Clusters W) : Nat → Nat :=
  Function.update name part.parent.size whole.parent.size

theorem extend_self (name : Nat → Nat) (whole part : Clusters W) :
    extend name whole part part.parent.size = whole.parent.size :=
  Function.update_self ..

theorem extend_of_mem (name : Nat → Nat) (whole : Clusters W) {id : Nat}
    (hid : id ∈ part.insiders nodes) : extend name whole part id = name id :=
  Function.update_of_ne (mem_current.mp hid.1).1.ne _ _

theorem Follows.injOn_extend (hfollows : Follows nodes name whole part)
    (hpart : Invariant (graph.restrict nodes) part) :
    Set.InjOn (extend name whole part) (insert part.parent.size (part.insiders nodes)) := by
  rw [Set.injOn_insert (size_notMem_insiders part nodes)]
  constructor
  · intro left hleft right hright heq
    rw [extend_of_mem name whole hleft, extend_of_mem name whole hright] at heq
    exact hfollows.injOn hpart hleft hright heq
  · rintro ⟨id, hid, heq⟩
    rw [extend_of_mem name whole hid, extend_self] at heq
    exact absurd heq (hfollows.name_lt id hid).ne

section

variable [Weight W]

/-- A merge outside of the part changes nothing inside. -/
theorem Follows.merge_outside (hfollows : Follows nodes name whole part)
    (hwhole : Invariant graph whole) (hgraph : graph.Proper) (hclosed : graph.Closed nodes)
    {edge : Edge W} (hedge : edge ∈ whole.edges)
    (houtside : whole.inside nodes edge.source = false) :
    Follows nodes name (whole.merge edge) part := by
  have hends := hwhole.live.ends_lt hgraph hwhole.partitioned hedge
  have htarget := hwhole.inside_target hgraph hclosed hedge
  constructor
  · rw [hwhole.onSide_edges_merge hgraph hclosed hedge, ← hfollows.edges_eq]
    have hleft : edge.source ∉ whole.insiders nodes := by simp [insiders, houtside]
    have hright : edge.target ∉ whole.insiders nodes := by simp [insiders, htarget, houtside]
    apply Fusion.apply_of_notMem hleft hright (size_notMem_insiders whole nodes)
    intro other hother
    obtain ⟨hother, hside⟩ := List.mem_filter.mp hother
    have hcurrent := hwhole.live.ends_mem hgraph hwhole.partitioned hother
    exact ⟨⟨hcurrent.1, hside⟩, hcurrent.2,
      (hwhole.inside_target hgraph hclosed hother).trans hside⟩
  · intro id hid
    rw [members_merge_of_lt whole edge (hfollows.name_lt id hid), hfollows.members_eq id hid]
  · intro id hid
    rw [size_parent_merge]
    exact (hfollows.name_lt id hid).trans (Nat.lt_succ_self _)
  · have hnot : ¬whole.members edge.source ⊆ nodes := by
      rw [← inside_iff, houtside]
      exact Bool.false_ne_true
    rw [hwhole.recorded.leafMerges_merge edge hends.1 hends.2, List.filter_append,
      ← hfollows.leafMerges_eq]
    simp [hnot]

/-- A merge in the whole is the merge in the part under other names. -/
theorem Follows.fusion_eq (hfollows : Follows nodes name whole part)
    (hwhole : Invariant graph whole) (hpart : Invariant (graph.restrict nodes) part)
    {edge : Edge W} (hedge : edge.Within (part.insiders nodes)) :
    whole.fusion (edge.rename name) = (part.fusion edge).rename (extend name whole part) := by
  simp only [fusion, Fusion.rename, Edge.rename, hfollows.populationOf_eq hwhole hpart hedge.1,
    hfollows.populationOf_eq hwhole hpart hedge.2, extend_of_mem name whole hedge.1,
    extend_of_mem name whole hedge.2, extend_self]

theorem mem_insiders_merge {clusters : Clusters W} {edge : Edge W}
    (hedge : edge.Within (clusters.insiders nodes)) {id : Nat}
    (hid : id ∈ (clusters.merge edge).insiders nodes) :
    id = clusters.parent.size ∨ id ∈ clusters.insiders nodes := by
  obtain ⟨hcurrent, hinside⟩ := hid
  rw [current_merge hedge.1.1 hedge.2.1, Finset.mem_insert, Finset.mem_erase,
    Finset.mem_erase] at hcurrent
  rcases hcurrent with hnew | ⟨_, _, hold⟩
  · exact .inl hnew
  · rw [inside_merge_of_lt clusters edge nodes (mem_current.mp hold).1] at hinside
    exact .inr ⟨hold, hinside⟩

/-- A merge inside of the part is the same merge in both states. -/
theorem Follows.merge_inside (hfollows : Follows nodes name whole part)
    (hwhole : Invariant graph whole) (hpart : Invariant (graph.restrict nodes) part)
    (hgraph : graph.Proper) (hclosed : graph.Closed nodes) {edge : Edge W}
    (hedge : edge ∈ part.edges) :
    Follows nodes (extend name whole part) (whole.merge (edge.rename name)) (part.merge edge) := by
  have hwithin : ∀ other ∈ part.edges, other.Within (part.insiders nodes) :=
    fun other hother => hpart.within_insiders hgraph hclosed hother
  obtain ⟨hsource, htarget⟩ := hwithin edge hedge
  have hlive : edge.rename name ∈ whole.edges := by
    have hmem : edge.rename name ∈ onSide (whole.inside nodes) whole.edges := by
      rw [hfollows.edges_eq]
      exact List.mem_map_of_mem hedge
    exact List.mem_of_mem_filter hmem
  constructor
  · have hrename : part.edges.map (Edge.rename name) =
        part.edges.map (Edge.rename (extend name whole part)) := by
      apply List.map_congr_left
      intro other hother
      simp only [Edge.rename, extend_of_mem name whole (hwithin other hother).1,
        extend_of_mem name whole (hwithin other hother).2]
    have hfusion : (part.fusion edge).Within (insert part.parent.size (part.insiders nodes)) :=
      ⟨.inr hsource, .inr htarget, .inl rfl⟩
    rw [hwhole.onSide_edges_merge hgraph hclosed hlive, hfollows.edges_eq, hrename,
      hfollows.fusion_eq hwhole hpart (hwithin edge hedge), edges_merge]
    apply Fusion.apply_rename (hfollows.injOn_extend hpart) hfusion
    intro other hother
    exact ⟨.inr (hwithin other hother).1, .inr (hwithin other hother).2⟩
  · intro id hid
    rcases mem_insiders_merge ⟨hsource, htarget⟩ hid with rfl | hold
    · rw [extend_self, members_merge_self, members_merge_self, Edge.rename,
        hfollows.members_eq _ hsource, hfollows.members_eq _ htarget]
    · rw [extend_of_mem name whole hold, members_merge_of_lt _ _ (hfollows.name_lt id hold),
        members_merge_of_lt _ _ (mem_current.mp hold.1).1, hfollows.members_eq id hold]
  · intro id hid
    rw [size_parent_merge]
    rcases mem_insiders_merge ⟨hsource, htarget⟩ hid with rfl | hold
    · rw [extend_self]
      exact Nat.lt_succ_self _
    · rw [extend_of_mem name whole hold]
      exact (hfollows.name_lt id hold).trans (Nat.lt_succ_self _)
  · have hinside := And.intro (inside_iff.mp hsource.2) (inside_iff.mp htarget.2)
    rw [hpart.recorded.leafMerges_merge edge (mem_current.mp hsource.1).1
        (mem_current.mp htarget.1).1,
      hwhole.recorded.leafMerges_merge _ (hfollows.name_lt _ hsource)
        (hfollows.name_lt _ htarget),
      List.filter_append, ← hfollows.leafMerges_eq, Edge.rename, hfollows.members_eq _ hsource,
      hfollows.members_eq _ htarget, List.filter_singleton, decide_eq_true hinside]
    rfl

/-- The merges of a run inside of a closed set of nodes are those of a run on the edges
of the set alone. -/
theorem exists_follows_of_reached {numbers : Set W} (hnumbers : Weight.Ordered numbers)
    (hgraph : graph.Proper) (hclosed : graph.Closed nodes)
    (hweights : ∀ clusters, Reached (ofGraph graph) clusters →
      ∀ edge ∈ clusters.edges, edge.weight ∈ numbers)
    (hreached : Reached (ofGraph graph) whole) :
    ∃ name part, Reached (ofGraph (graph.restrict nodes)) part ∧
      Follows nodes name whole part := by
  apply Reached.induction (motive := fun whole => ∃ name part,
    Reached (ofGraph (graph.restrict nodes)) part ∧ Follows nodes name whole part) _ _ hreached
  · rintro whole edge hreached ⟨name, part, hpartReached, hfollows⟩ hheaviest
    have hwhole := hreached.invariant hgraph
    have hpart := hpartReached.invariant (hgraph.restrict nodes)
    by_cases hinside : whole.inside nodes edge.source = true
    · -- the heaviest edge of all is the heaviest one inside of the part
      have hchosen : heaviest? (onSide (whole.inside nodes) whole.edges) = some edge :=
        heaviest?_filter hnumbers (hweights whole hreached) hheaviest hinside
      have hrenamed : (heaviest? part.edges).map (Edge.rename name) = some edge := by
        rw [← heaviest?_rename, ← hfollows.edges_eq, hchosen]
      obtain ⟨own, hown, rfl⟩ := Option.map_eq_some_iff.mp hrenamed
      exact ⟨_, _, hpartReached.merge hown,
        hfollows.merge_inside hwhole hpart hgraph hclosed (mem_of_heaviest? hown)⟩
    · rw [Bool.not_eq_true] at hinside
      exact ⟨name, part, hpartReached, hfollows.merge_outside hwhole hgraph hclosed
        (mem_of_heaviest? hheaviest) hinside⟩
  · exact ⟨id, _, reached_self _, follows_ofGraph hclosed⟩

end

end Clusters

/-- The components of a graph are clustered independently.  As long as every weight of
the run is a number, the merges inside of a component are those of the graph that has
the same nodes and the edges of the component only. -/
theorem Graph.cluster_restrict_component {graph : Graph Float} {linkage : Linkage Float}
    (hrun : graph.cluster = .ok linkage)
    (hnumbers : ∀ clusters, Clusters.Reached (.ofGraph graph) clusters →
      ∀ edge ∈ clusters.edges, edge.weight.isNaN = false)
    {nodes : Finset Nat} (hnodes : graph.IsComponent nodes) :
    ∃ part, (graph.restrict nodes).cluster = .ok part ∧
      part.clusters.leafMerges = linkage.clusters.leafMerges.filter fun merge =>
        merge.1 ⊆ nodes ∧ merge.2.1 ⊆ nodes := by
  obtain ⟨hgraph, hlinkage⟩ := Graph.proper_of_cluster hrun
  have hfits : 2 * (graph.restrict nodes).nodeCount ≤ Linkage.idLimit :=
    (Graph.exists_cluster_iff.mp ⟨linkage, hrun⟩).1
  obtain ⟨name, clusters, hreached, hfollows⟩ := Clusters.exists_follows_of_reached
    Weight.ordered_double hgraph hnodes.closed hnumbers hlinkage.reached
  have hedges : clusters.edges = [] := by
    have hinside := hfollows.edges_eq
    rw [hlinkage.edges_eq_nil hgraph] at hinside
    exact List.map_eq_nil_iff.mp hinside.symm
  obtain ⟨part, hcluster, rfl⟩ :=
    Graph.exists_cluster_of_reached hfits (hgraph.restrict nodes) hreached hedges
  exact ⟨part, hcluster, hfollows.leafMerges_eq⟩

/-- Two components whose merges take turns. -/
def Graph.interleaved : Graph Float :=
  ⟨5, [⟨3, 4, 2⟩, ⟨1, 2, 1⟩, ⟨0, 1, 3⟩, ⟨0, 2, 2⟩, ⟨4, 3, 2⟩]⟩

theorem Graph.isComponent_interleaved : Graph.interleaved.IsComponent {0, 1, 2} := by
  have hclosed : Graph.interleaved.Closed {0, 1, 2} := by
    rw [Graph.Closed]
    decide
  have hfirst : Graph.interleaved.Connected 0 1 :=
    Graph.connected_of_mem (List.mem_of_getElem? (show Graph.interleaved.edges[2]? = _ from rfl))
  have hsecond : Graph.interleaved.Connected 0 2 :=
    Graph.connected_of_mem (List.mem_of_getElem? (show Graph.interleaved.edges[3]? = _ from rfl))
  refine ⟨0, by decide, ?_⟩
  intro other
  constructor
  · intro hmem
    simp only [Finset.mem_insert, Finset.mem_singleton] at hmem
    rcases hmem with rfl | rfl | rfl
    · exact .refl 0
    · exact hfirst
    · exact hsecond
  · intro hconnected
    exact (hclosed.mem_iff hconnected).mp (by decide)

/-- The run has few enough states to go through all of them. -/
theorem Graph.isNaN_interleaved :
    ∀ clusters, Clusters.Reached (.ofGraph Graph.interleaved) clusters →
      ∀ edge ∈ clusters.edges, edge.weight.isNaN = false := by
  have hgraph : Graph.interleaved.Proper := by
    rw [Graph.Proper]
    decide
  have hstates : ∀ count < 6,
      (Clusters.mergeTimes count (.ofGraph Graph.interleaved)).toOption.all fun clusters =>
        clusters.edges.all fun edge => !edge.weight.isNaN := by
    decide +kernel
  rintro clusters ⟨count, hrun⟩ edge hedge
  have hcard := Clusters.card_current_of_mergeTimes hgraph hrun
  have hcount : count < 6 := by
    have hnodes : Graph.interleaved.nodeCount = 5 := rfl
    omega
  have hstate := hstates count hcount
  simp only [hrun, Except.toOption, Option.all_some, List.all_eq_true] at hstate
  simpa using hstate edge hedge

theorem Graph.cluster_restrict_component_interleaved :
    Graph.interleaved.IsComponent {0, 1, 2} ∧
    (∀ clusters, Clusters.Reached (.ofGraph Graph.interleaved) clusters →
      ∀ edge ∈ clusters.edges, edge.weight.isNaN = false) ∧
    ∃ linkage part, Graph.interleaved.cluster = .ok linkage ∧
      linkage.clusters.leafMerges = [({0}, {1}, 3), ({3}, {4}, 2), ({0, 1}, {2}, 1.5)] ∧
      (Graph.interleaved.restrict {0, 1, 2}).cluster = .ok part ∧
      part.clusters.leafMerges = [({0}, {1}, 3), ({0, 1}, {2}, 1.5)] := by
  have hresult : Graph.interleaved.cluster.toOption.map
      (fun linkage => linkage.clusters.leafMerges) =
      some [({0}, {1}, 3), ({3}, {4}, 2), ({0, 1}, {2}, 1.5)] := by
    decide +kernel
  obtain ⟨linkage, hrun, hwhole⟩ := exists_ok_of_toOption hresult
  obtain ⟨part, hcluster, hmerges⟩ := Graph.cluster_restrict_component hrun
    Graph.isNaN_interleaved Graph.isComponent_interleaved
  rw [hwhole] at hmerges
  exact ⟨Graph.isComponent_interleaved, Graph.isNaN_interleaved, linkage, part, hrun, hwhole,
    hcluster, hmerges.trans (by decide +kernel)⟩

end AverageLinkage
