import Mathlib
import AverageLinkage.Proofs.Components
import AverageLinkage.Proofs.Partition

/-!
# Runs of merges

What holds after any number of merges, whatever the weights are.  An edge leads
from one cluster to another one exactly if an edge of the graph leads from a leaf
of the first to a leaf of the second, and the leaves of a cluster are connected.
So there are at least as many current clusters as components, and exactly as many
if and only if no edge is left.
-/

namespace AverageLinkage

/-- All edges join two different nodes of the graph. -/
def Graph.Proper {W : Type} (graph : Graph W) : Prop :=
  ∀ edge ∈ graph.edges, edge.source ≠ edge.target ∧
    edge.source < graph.nodeCount ∧ edge.target < graph.nodeCount

theorem Graph.Proper.inRange {W : Type} {graph : Graph W} (hgraph : graph.Proper) :
    graph.InRange :=
  fun edge hedge => (hgraph edge hedge).2

namespace Clusters

variable {W : Type}

/-! ## The edges that are left -/

/-- The live edges are those of the graph, seen between the clusters to which
their ends have come. -/
structure Live (graph : Graph W) (clusters : Clusters W) : Prop where
  exists_iff : ∀ source target,
    (∃ edge ∈ clusters.edges, edge.source = source ∧ edge.target = target) ↔
      source ≠ target ∧ ∃ edge ∈ graph.edges,
        clusters.owner edge.source = source ∧ clusters.owner edge.target = target
  connected : ∀ id < clusters.parent.size, ∀ left ∈ clusters.members id,
    ∀ right ∈ clusters.members id, graph.Connected left right

theorem live_ofGraph {graph : Graph W} (hgraph : graph.Proper) : Live graph (ofGraph graph) := by
  constructor
  · intro source target
    simp only [owner_ofGraph]
    refine ⟨?_, And.right⟩
    rintro ⟨edge, hedge, rfl, rfl⟩
    exact ⟨(hgraph edge hedge).1, edge, hedge, rfl, rfl⟩
  · intro id _ left hleft right hright
    rw [members_ofGraph, Finset.mem_singleton] at hleft hright
    rw [hleft, hright]
    exact .refl id

/-- The edge of the graph behind a live edge. -/
theorem Live.exists_mem {graph : Graph W} {clusters : Clusters W} (hlive : Live graph clusters)
    {edge : Edge W} (hedge : edge ∈ clusters.edges) :
    edge.source ≠ edge.target ∧ ∃ original ∈ graph.edges,
      clusters.owner original.source = edge.source ∧
        clusters.owner original.target = edge.target :=
  (hlive.exists_iff edge.source edge.target).mp ⟨edge, hedge, rfl, rfl⟩

/-- A live edge joins two different current clusters. -/
theorem Live.ends_mem {graph : Graph W} {clusters : Clusters W} (hlive : Live graph clusters)
    (hgraph : graph.Proper) (hpart : Partitioned graph.nodeCount clusters) {edge : Edge W}
    (hedge : edge ∈ clusters.edges) :
    edge.source ∈ clusters.current ∧ edge.target ∈ clusters.current := by
  obtain ⟨_, original, horiginal, hsource, htarget⟩ := hlive.exists_mem hedge
  obtain ⟨_, hsourceLt, htargetLt⟩ := hgraph original horiginal
  rw [← hsource, ← htarget]
  exact ⟨hpart.owner_mem _ hsourceLt, hpart.owner_mem _ htargetLt⟩

theorem Live.ends_lt {graph : Graph W} {clusters : Clusters W} (hlive : Live graph clusters)
    (hgraph : graph.Proper) (hpart : Partitioned graph.nodeCount clusters) {edge : Edge W}
    (hedge : edge ∈ clusters.edges) :
    edge.source < clusters.parent.size ∧ edge.target < clusters.parent.size := by
  obtain ⟨hsource, htarget⟩ := hlive.ends_mem hgraph hpart hedge
  exact ⟨(mem_current.mp hsource).1, (mem_current.mp htarget).1⟩

/-- The edge of the graph behind a live edge leads from a leaf of the one cluster to a
leaf of the other. -/
theorem Live.exists_leaves {graph : Graph W} {clusters : Clusters W} (hlive : Live graph clusters)
    (hgraph : graph.Proper) (hpart : Partitioned graph.nodeCount clusters) {edge : Edge W}
    (hedge : edge ∈ clusters.edges) :
    ∃ original ∈ graph.edges, original.source ∈ clusters.members edge.source ∧
      original.target ∈ clusters.members edge.target := by
  obtain ⟨hsource, htarget⟩ := hlive.ends_mem hgraph hpart hedge
  obtain ⟨_, original, horiginal, hsourceOwner, htargetOwner⟩ := hlive.exists_mem hedge
  obtain ⟨_, hsourceLeaf, htargetLeaf⟩ := hgraph original horiginal
  exact ⟨original, horiginal,
    (hpart.mem_members_iff _ hsource _).mpr ⟨hsourceLeaf, hsourceOwner⟩,
    (hpart.mem_members_iff _ htarget _).mpr ⟨htargetLeaf, htargetOwner⟩⟩

/-- The ends of an edge keep different places unless the edge joins the two
clusters that are replaced. -/
theorem heir_ne_of_not_joins {left right node : Nat} {edge : Edge W}
    (hne : edge.source ≠ edge.target) (hsource : edge.source ≠ node)
    (htarget : edge.target ≠ node) (hjoins : edge.joins left right = false) :
    heir left right node edge.source ≠ heir left right node edge.target := by
  simp only [Edge.joins, Bool.or_eq_false_iff, Bool.and_eq_false_iff, beq_eq_false_iff_ne]
    at hjoins
  simp only [heir]
  grind

theorem heir_eq_of_joins {left right node : Nat} {edge : Edge W}
    (hjoins : edge.joins left right = true) :
    heir left right node edge.source = heir left right node edge.target := by
  simp only [Edge.joins, Bool.or_eq_true, Bool.and_eq_true, beq_iff_eq] at hjoins
  rcases hjoins with ⟨hsource, htarget⟩ | ⟨hsource, htarget⟩ <;> simp [hsource, htarget]

section

variable [Weight W]

/-- After a merge the edges lead between the new places of the clusters between
which they led. -/
theorem Live.exists_iff_merge {graph : Graph W} {clusters : Clusters W}
    (hlive : Live graph clusters) (hgraph : graph.Proper)
    (hpart : Partitioned graph.nodeCount clusters) (edge : Edge W) (source target : Nat) :
    (∃ other ∈ (clusters.merge edge).edges, other.source = source ∧ other.target = target) ↔
      source ≠ target ∧ ∃ original ∈ graph.edges,
        (clusters.merge edge).owner original.source = source ∧
          (clusters.merge edge).owner original.target = target := by
  rw [edges_merge, exists_mem_apply_iff]
  simp only [left_fusion, right_fusion, node_fusion, owner_merge]
  constructor
  · rintro ⟨other, hother, hjoins, rfl, rfl⟩
    obtain ⟨hne, original, horiginal, hsource, htarget⟩ := hlive.exists_mem hother
    obtain ⟨hsourceLt, htargetLt⟩ := hlive.ends_lt hgraph hpart hother
    refine ⟨?_, original, horiginal, by rw [hsource], by rw [htarget]⟩
    exact heir_ne_of_not_joins hne hsourceLt.ne htargetLt.ne hjoins
  · rintro ⟨hne, original, horiginal, rfl, rfl⟩
    have howners : clusters.owner original.source ≠ clusters.owner original.target := by
      intro hsame
      exact hne (by rw [hsame])
    obtain ⟨other, hother, hsource, htarget⟩ :=
      (hlive.exists_iff _ _).mpr ⟨howners, original, horiginal, rfl, rfl⟩
    refine ⟨other, hother, ?_, by rw [hsource], by rw [htarget]⟩
    rw [← hsource, ← htarget] at hne
    by_contra hjoins
    exact hne (heir_eq_of_joins (by simpa using hjoins))

/-- The edge of the graph behind a merge connects the leaves of the two parts. -/
theorem Live.connected_merge {graph : Graph W} {clusters : Clusters W}
    (hlive : Live graph clusters) (hgraph : graph.Proper)
    (hpart : Partitioned graph.nodeCount clusters) {edge : Edge W}
    (hedge : edge ∈ clusters.edges) :
    ∀ left ∈ (clusters.merge edge).members clusters.parent.size,
      ∀ right ∈ (clusters.merge edge).members clusters.parent.size,
        graph.Connected left right := by
  obtain ⟨hsourceLt, htargetLt⟩ := hlive.ends_lt hgraph hpart hedge
  obtain ⟨original, horiginal, hsourceMem, htargetMem⟩ := hlive.exists_leaves hgraph hpart hedge
  have hbridge : ∀ leaf ∈ (clusters.merge edge).members clusters.parent.size,
      graph.Connected original.source leaf := by
    intro leaf hleaf
    rw [members_merge_self, Finset.mem_union] at hleaf
    rcases hleaf with hleaf | hleaf
    · exact hlive.connected _ hsourceLt _ hsourceMem _ hleaf
    · exact (Graph.connected_of_mem horiginal).trans
        (hlive.connected _ htargetLt _ htargetMem _ hleaf)
  intro left hleft right hright
  exact (hbridge left hleft).symm.trans (hbridge right hright)

theorem Live.merge {graph : Graph W} {clusters : Clusters W} (hlive : Live graph clusters)
    (hgraph : graph.Proper) (hpart : Partitioned graph.nodeCount clusters) {edge : Edge W}
    (hedge : edge ∈ clusters.edges) : Live graph (clusters.merge edge) := by
  refine ⟨hlive.exists_iff_merge hgraph hpart edge, ?_⟩
  intro id hid
  rw [size_parent_merge] at hid
  rcases Nat.lt_succ_iff_lt_or_eq.mp hid with hold | rfl
  · rw [members_merge_of_lt clusters edge hold]
    exact hlive.connected id hold
  · exact hlive.connected_merge hgraph hpart hedge

end

/-! ## All that holds after a run -/

/-- What every state of a run satisfies. -/
structure Invariant (graph : Graph W) (clusters : Clusters W) : Prop where
  recorded : Recorded graph.nodeCount clusters
  partitioned : Partitioned graph.nodeCount clusters
  live : Live graph clusters

theorem invariant_ofGraph {graph : Graph W} (hgraph : graph.Proper) :
    Invariant graph (ofGraph graph) :=
  ⟨recorded_ofGraph graph, partitioned_ofGraph graph, live_ofGraph hgraph⟩

/-- An edge leads from one current cluster to another one exactly if an edge of the
graph leads from a leaf of the first to a leaf of the second. -/
theorem Invariant.exists_edge_iff {graph : Graph W} {clusters : Clusters W}
    (hinv : Invariant graph clusters) (hgraph : graph.Proper) {source target : Nat}
    (hsource : source ∈ clusters.current) (htarget : target ∈ clusters.current)
    (hne : source ≠ target) :
    (∃ edge ∈ clusters.edges, edge.source = source ∧ edge.target = target) ↔
      ∃ edge ∈ graph.edges, edge.source ∈ clusters.members source ∧
        edge.target ∈ clusters.members target := by
  have hpart := hinv.partitioned
  rw [hinv.live.exists_iff]
  simp only [hpart.mem_members_iff _ hsource, hpart.mem_members_iff _ htarget]
  constructor
  · rintro ⟨_, edge, hedge, hleft, hright⟩
    obtain ⟨_, hsourceLt, htargetLt⟩ := hgraph edge hedge
    exact ⟨edge, hedge, ⟨hsourceLt, hleft⟩, htargetLt, hright⟩
  · rintro ⟨edge, hedge, ⟨_, hleft⟩, _, hright⟩
    exact ⟨hne, edge, hedge, hleft, hright⟩

section

variable [Weight W]

theorem Invariant.merge {graph : Graph W} {clusters : Clusters W}
    (hinv : Invariant graph clusters) (hgraph : graph.Proper) {edge : Edge W}
    (hedge : edge ∈ clusters.edges) : Invariant graph (clusters.merge edge) := by
  obtain ⟨hsource, htarget⟩ := hinv.live.ends_mem hgraph hinv.partitioned hedge
  have hne := (hinv.live.exists_mem hedge).1
  exact ⟨hinv.recorded.merge hsource htarget hne,
    hinv.partitioned.merge hinv.recorded hsource htarget hne,
    hinv.live.merge hgraph hinv.partitioned hedge⟩

/-- What holds at the start and is kept by every merge along the heaviest edge
holds after any number of merges. -/
theorem mergeTimes_induction {motive : Clusters W → Prop}
    (hstep : ∀ clusters edge, motive clusters → heaviest? clusters.edges = some edge →
      motive (clusters.merge edge))
    {count : Nat} {start after : Clusters W} (hstart : motive start)
    (hafter : mergeTimes count start = .ok after) : motive after := by
  induction count generalizing start with
  | zero =>
      simp only [mergeTimes, Except.ok.injEq] at hafter
      rwa [← hafter]
  | succ count ih =>
      rw [mergeTimes] at hafter
      cases hnext : start.step? with
      | none => simp [hnext] at hafter
      | some next =>
          simp only [hnext] at hafter
          obtain ⟨edge, hedge, rfl⟩ := Option.map_eq_some_iff.mp hnext
          exact ih (hstep start edge hstart hedge) hafter

/-- A state that a run from `start` comes to. -/
def Reached (start clusters : Clusters W) : Prop :=
  ∃ count, mergeTimes count start = .ok clusters

theorem reached_self (start : Clusters W) : Reached start start := ⟨0, rfl⟩

/-- A run goes on along the heaviest edge. -/
theorem mergeTimes_succ {count : Nat} {start clusters : Clusters W} {edge : Edge W}
    (hrun : mergeTimes count start = .ok clusters)
    (hedge : heaviest? clusters.edges = some edge) :
    mergeTimes (count + 1) start = .ok (clusters.merge edge) := by
  induction count generalizing start with
  | zero =>
      obtain rfl : start = clusters := Except.ok.inj hrun
      simp [mergeTimes, step?, hedge]
  | succ count ih =>
      rw [mergeTimes] at hrun ⊢
      cases hnext : start.step? with
      | none => simp [hnext] at hrun
      | some next =>
          simp only [hnext] at hrun ⊢
          exact ih hrun

theorem Reached.merge {start clusters : Clusters W} (hreached : Reached start clusters)
    {edge : Edge W} (hedge : heaviest? clusters.edges = some edge) :
    Reached start (clusters.merge edge) := by
  obtain ⟨count, hrun⟩ := hreached
  exact ⟨count + 1, mergeTimes_succ hrun hedge⟩

/-- What holds at the start and is kept by every merge of a run holds in every state of
the run. -/
theorem Reached.induction {start after : Clusters W} {motive : Clusters W → Prop}
    (hstep : ∀ clusters edge, Reached start clusters → motive clusters →
      heaviest? clusters.edges = some edge → motive (clusters.merge edge))
    (hstart : motive start) (hreached : Reached start after) : motive after := by
  obtain ⟨_, hrun⟩ := hreached
  have hboth : Reached start after ∧ motive after := by
    apply mergeTimes_induction
      (motive := fun clusters => Reached start clusters ∧ motive clusters) _ _ hrun
    · intro clusters edge hstate hedge
      exact ⟨hstate.1.merge hedge, hstep clusters edge hstate.1 hstate.2 hedge⟩
    · exact ⟨reached_self start, hstart⟩
  exact hboth.2

theorem invariant_of_mergeTimes {graph : Graph W} (hgraph : graph.Proper) {count : Nat}
    {after : Clusters W} (hafter : mergeTimes count (ofGraph graph) = .ok after) :
    Invariant graph after :=
  mergeTimes_induction
    (fun _ _ hinv hedge => hinv.merge hgraph (mem_of_heaviest? hedge))
    (invariant_ofGraph hgraph) hafter

theorem size_merges_of_mergeTimes {graph : Graph W} {count : Nat} {after : Clusters W}
    (hafter : mergeTimes count (ofGraph graph) = .ok after) : after.merges.size = count := by
  rw [size_merges_mergeTimes hafter]
  simp [ofGraph]

/-- Every merge of a run leaves one cluster less. -/
theorem card_current_of_mergeTimes {graph : Graph W} (hgraph : graph.Proper) {count : Nat}
    {after : Clusters W} (hafter : mergeTimes count (ofGraph graph) = .ok after) :
    after.current.card + count = graph.nodeCount := by
  rw [← size_merges_of_mergeTimes hafter]
  exact (invariant_of_mergeTimes hgraph hafter).partitioned.card_current

theorem Reached.invariant {graph : Graph W} {clusters : Clusters W}
    (hreached : Reached (ofGraph graph) clusters) (hgraph : graph.Proper) :
    Invariant graph clusters := by
  obtain ⟨_, hrun⟩ := hreached
  exact invariant_of_mergeTimes hgraph hrun

end

/-! ## Clusters and components -/

/-- Every component has a current cluster of its own. -/
theorem Invariant.count_le_card {graph : Graph W} {clusters : Clusters W}
    (hinv : Invariant graph clusters) (hgraph : graph.Proper) :
    graph.components.count ≤ clusters.current.card := by
  rw [Graph.count_components hgraph.inRange]
  refine Finset.card_le_card_of_forall_subsingleton
    (fun label id => ∃ leaf ∈ clusters.members id, graph.representative leaf = label) ?_ ?_
  · intro label hlabel
    obtain ⟨leaf, hleaf, rfl⟩ := Finset.mem_image.mp hlabel
    rw [Finset.mem_range] at hleaf
    have howner := hinv.partitioned.owner_mem leaf hleaf
    exact ⟨_, howner, leaf, (hinv.partitioned.mem_members_iff _ howner leaf).mpr ⟨hleaf, rfl⟩, rfl⟩
  · rintro id hid _ ⟨_, left, hleft, rfl⟩ _ ⟨_, right, hright, rfl⟩
    rw [Graph.representative_eq_iff hgraph.inRange]
    exact hinv.live.connected id (mem_current.mp hid).1 left hleft right hright

/-- If no edge is left, the nodes of a component have come to the same cluster. -/
theorem Live.owner_eq_of_connected {graph : Graph W} {clusters : Clusters W}
    (hlive : Live graph clusters) (hedges : clusters.edges = []) {left right : Nat}
    (hconnected : graph.Connected left right) :
    clusters.owner left = clusters.owner right := by
  refine hconnected.eq_of_adjacent clusters.owner fun edge hedge => ?_
  by_contra hne
  obtain ⟨_, hmem, _⟩ := (hlive.exists_iff _ _).mpr ⟨hne, edge, hedge, rfl, rfl⟩
  simp [hedges] at hmem

theorem Invariant.card_le_count {graph : Graph W} {clusters : Clusters W}
    (hinv : Invariant graph clusters) (hgraph : graph.Proper) (hedges : clusters.edges = []) :
    clusters.current.card ≤ graph.components.count := by
  have hpart := hinv.partitioned
  rw [Graph.count_components hgraph.inRange]
  refine Finset.card_le_card_of_forall_subsingleton
    (fun id label => ∃ leaf ∈ clusters.members id, graph.representative leaf = label) ?_ ?_
  · intro id hid
    obtain ⟨leaf, hleaf⟩ := hpart.members_nonempty hinv.recorded (mem_current.mp hid).1
    have hlt := ((hpart.mem_members_iff id hid leaf).mp hleaf).1
    exact ⟨_, Finset.mem_image_of_mem _ (Finset.mem_range.mpr hlt), leaf, hleaf, rfl⟩
  · rintro label _ left ⟨hleft, leaf, hleaf, hlabel⟩ right ⟨hright, other, hother, hlabel'⟩
    rw [← hlabel', Graph.representative_eq_iff hgraph.inRange] at hlabel
    rw [hpart.mem_members_iff left hleft] at hleaf
    rw [hpart.mem_members_iff right hright] at hother
    rw [← hleaf.2, ← hother.2]
    exact hinv.live.owner_eq_of_connected hedges hlabel

section

variable [Weight W]

/-- The edges are used up exactly when every component is one cluster. -/
theorem Invariant.edges_eq_nil_iff {graph : Graph W} {clusters : Clusters W}
    (hinv : Invariant graph clusters) (hgraph : graph.Proper) :
    clusters.edges = [] ↔ clusters.current.card = graph.components.count := by
  constructor
  · intro hedges
    exact le_antisymm (hinv.card_le_count hgraph hedges) (hinv.count_le_card hgraph)
  · intro hcard
    rw [← heaviest?_eq_none_iff]
    by_contra hsome
    obtain ⟨edge, hedge⟩ := Option.ne_none_iff_exists'.mp hsome
    -- one more merge would leave fewer clusters than components
    have hnext := hinv.merge hgraph (mem_of_heaviest? hedge)
    have hle := hnext.count_le_card hgraph
    have hcount := hinv.partitioned.card_current
    have hcount' := hnext.partitioned.card_current
    rw [size_merges_merge] at hcount'
    omega

/-- No run stops before every component is one cluster. -/
theorem Invariant.exists_mergeTimes {graph : Graph W} {clusters : Clusters W}
    (hinv : Invariant graph clusters) (hgraph : graph.Proper) {count : Nat}
    (hcount : count + graph.components.count ≤ clusters.current.card) :
    ∃ after, mergeTimes count clusters = .ok after := by
  induction count generalizing clusters with
  | zero => exact ⟨clusters, rfl⟩
  | succ count ih =>
      have hedges : heaviest? clusters.edges ≠ none := by
        rw [Ne, heaviest?_eq_none_iff, hinv.edges_eq_nil_iff hgraph]
        omega
      obtain ⟨edge, hedge⟩ := Option.ne_none_iff_exists'.mp hedges
      have hnext := hinv.merge hgraph (mem_of_heaviest? hedge)
      have hcard := hinv.partitioned.card_current
      have hcard' := hnext.partitioned.card_current
      rw [size_merges_merge] at hcard'
      have hstep : clusters.step? = some (clusters.merge edge) := by
        simp [step?, hedge]
      rw [mergeTimes, hstep]
      exact ih hnext (by omega)

end

end Clusters

end AverageLinkage
