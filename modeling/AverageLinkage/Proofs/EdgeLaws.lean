import Mathlib
import AverageLinkage.Proofs.Conservation
import AverageLinkage.Proofs.Outcome

/-!
# What live edges tell about the graph

In every state of a run the live edges are those of the graph, seen from the
current clusters.  They join two different current clusters, one leads from a
cluster to another one exactly if an edge of the graph leads from a leaf of the
first to a leaf of the second, and at a cluster that was formed by a merge no two
of them are parallel.  With exact weights, what leads from a cluster to another
one weighs, counted with the two populations, as much as the edges of the graph
between the leaves.
-/

namespace AverageLinkage

variable {W : Type}

namespace Clusters

/-- The graph has no edge at the numbers above its nodes. -/
theorem simpleFrom_edges {graph : Graph W} (hgraph : graph.Proper) :
    SimpleFrom graph.nodeCount graph.edges := by
  intro source target hfirst
  have hnil : weightsBetween source target graph.edges = [] := by
    by_contra hne
    obtain ⟨edge, hedge, rfl, rfl⟩ := weightsBetween_ne_nil_iff.mp hne
    have hends := hgraph edge hedge
    omega
  simp [hnil]

section

variable [Weight W]

/-- Every merge joins the parallel edges at the cluster it forms, so none are left at any cluster
that was formed. -/
theorem simpleFrom_of_reached {graph : Graph W} (hgraph : graph.Proper) {clusters : Clusters W}
    (hreached : Reached (ofGraph graph) clusters) : SimpleFrom graph.nodeCount clusters.edges := by
  apply Reached.induction (motive := fun clusters => SimpleFrom graph.nodeCount clusters.edges) _
    (simpleFrom_edges hgraph) hreached
  intro clusters edge _ hsimple _
  exact hsimple.apply

end

/-- The weight of the graph is conserved over the whole run. -/
theorem conserved_of_reached {graph : Graph ℚ} (hgraph : graph.Proper) {clusters : Clusters ℚ}
    (hreached : Reached (ofGraph graph) clusters) : Conserved graph clusters := by
  apply Reached.induction _ (conserved_ofGraph hgraph) hreached
  intro clusters edge hreached hconserved hheaviest
  exact hconserved.merge (hreached.invariant hgraph) hgraph (mem_of_heaviest? hheaviest)

/-- A test that is one or zero picks edges. -/
theorem weigh_ite (test : Nat → Nat → Prop) [∀ source target, Decidable (test source target)]
    (edges : List (Edge ℚ)) :
    weigh (fun source target => if test source target then 1 else 0) edges =
      ((edges.filter fun edge => test edge.source edge.target).map Edge.weight).sum := by
  induction edges with
  | nil => rfl
  | cons edge rest ih =>
      rw [weigh_cons, ih, List.filter_cons]
      by_cases htest : test edge.source edge.target
      · simp [htest]
      · simp [htest]

end Clusters

/-- In every state of a run, whatever the weights are, the live edges are those of
the graph as the current clusters see them. -/
theorem Graph.liveEdges_exact [Weight W] {graph : Graph W} (hcheck : Linkage.check graph = .ok ())
    {count : Nat} {clusters : Clusters W}
    (hrun : Clusters.mergeTimes count (.ofGraph graph) = .ok clusters) :
    (∀ edge ∈ clusters.edges, edge.source ∈ clusters.current ∧
      edge.target ∈ clusters.current ∧ edge.source ≠ edge.target) ∧
    ∀ source ∈ clusters.current, ∀ target ∈ clusters.current, source ≠ target →
      ((∃ edge ∈ clusters.edges, edge.source = source ∧ edge.target = target) ↔
        ∃ edge ∈ graph.edges, edge.source ∈ clusters.members source ∧
          edge.target ∈ clusters.members target) ∧
      (graph.nodeCount ≤ source ∨ graph.nodeCount ≤ target →
        (clusters.edges.filter (Edge.leads source target)).length ≤ 1) := by
  have hgraph := (Linkage.check_eq_ok_iff.mp hcheck).2
  have hinv := Clusters.invariant_of_mergeTimes hgraph hrun
  constructor
  · intro edge hedge
    have hends := hinv.live.ends_mem hgraph hinv.partitioned hedge
    exact ⟨hends.1, hends.2, (hinv.live.exists_mem hedge).1⟩
  · intro source hsource target htarget hne
    constructor
    · exact hinv.exists_edge_iff hgraph hsource htarget hne
    · intro hformed
      have hsimple := Clusters.simpleFrom_of_reached hgraph ⟨count, hrun⟩ source target hformed
      rwa [Clusters.weightsBetween, List.length_map] at hsimple

/-- Parallel edges between two nodes, and a node with edges in both directions. -/
def Graph.bundled : Graph ℚ :=
  ⟨4, [⟨2, 3, 1⟩, ⟨0, 1, 5⟩, ⟨2, 3, 2⟩, ⟨0, 2, 4⟩, ⟨1, 2, 2⟩, ⟨2, 1, 1⟩]⟩

/-- The first merge joins the edges at the new cluster and leaves the parallel edges
elsewhere. -/
theorem Graph.exists_mergeTimes_bundled :
    ∃ clusters, Clusters.mergeTimes 1 (.ofGraph Graph.bundled) = .ok clusters ∧
      clusters.edges = [⟨2, 3, 1⟩, ⟨2, 3, 2⟩, ⟨4, 2, 3⟩, ⟨2, 4, 1 / 2⟩] ∧
      clusters.current = {2, 3, 4} ∧ clusters.populationOf 4 = 2 ∧
      clusters.members 4 = {0, 1} := by
  have hstate : (Clusters.mergeTimes 1 (.ofGraph Graph.bundled)).toOption.map (fun clusters =>
      (clusters.edges, clusters.current, clusters.populationOf 4, clusters.members 4)) =
      some ([⟨2, 3, 1⟩, ⟨2, 3, 2⟩, ⟨4, 2, 3⟩, ⟨2, 4, 1 / 2⟩], {2, 3, 4}, 2, {0, 1}) := by
    decide +kernel
  obtain ⟨clusters, hrun, hstate⟩ := exists_ok_of_toOption hstate
  simp only [Prod.mk.injEq] at hstate
  exact ⟨clusters, hrun, hstate⟩

theorem Graph.liveEdges_exact_bundled :
    Linkage.check Graph.bundled = .ok () ∧
    ∃ clusters, Clusters.mergeTimes 1 (.ofGraph Graph.bundled) = .ok clusters ∧
      clusters.edges = [⟨2, 3, 1⟩, ⟨2, 3, 2⟩, ⟨4, 2, 3⟩, ⟨2, 4, 1 / 2⟩] ∧
      (∀ edge ∈ clusters.edges, edge.source ∈ clusters.current ∧
        edge.target ∈ clusters.current ∧ edge.source ≠ edge.target) ∧
      (∃ edge ∈ Graph.bundled.edges, edge.source ∈ ({0, 1} : Finset Nat) ∧
        edge.target ∈ clusters.members 2) ∧
      (clusters.edges.filter (Edge.leads 4 2)).length ≤ 1 := by
  have hcheck : Linkage.check Graph.bundled = .ok () := rfl
  obtain ⟨clusters, hrun, hedges, hcurrent, _, hmembers⟩ := Graph.exists_mergeTimes_bundled
  have hexact := Graph.liveEdges_exact hcheck hrun
  have hpair := hexact.2 4 (by simp [hcurrent]) 2 (by simp [hcurrent]) (by decide)
  rw [hmembers] at hpair
  exact ⟨hcheck, clusters, hrun, hedges, hexact.1, hpair.1.mp (by simp [hedges]),
    hpair.2 (.inl (by decide))⟩

/-- With exact weights, what leads from a current cluster to another one weighs,
counted with the two populations, as much as the edges of the graph from the leaves
of the first to the leaves of the second. -/
theorem Graph.liveWeight_conserved {graph : Graph ℚ} (hcheck : Linkage.check graph = .ok ())
    {count : Nat} {clusters : Clusters ℚ}
    (hrun : Clusters.mergeTimes count (.ofGraph graph) = .ok clusters) {source target : Nat}
    (hsource : source ∈ clusters.current) (htarget : target ∈ clusters.current)
    (hne : source ≠ target) :
    ((clusters.edges.filter (Edge.leads source target)).map Edge.weight).sum *
        clusters.populationOf source * clusters.populationOf target =
      ((graph.edges.filter fun edge => edge.source ∈ clusters.members source ∧
        edge.target ∈ clusters.members target).map Edge.weight).sum := by
  have hgraph := (Linkage.check_eq_ok_iff.mp hcheck).2
  have hinv := Clusters.invariant_of_mergeTimes hgraph hrun
  have hlaw := (Clusters.conserved_of_reached hgraph ⟨count, hrun⟩).sum_weightsBetween hinv hgraph
    hsource htarget hne
  rwa [Clusters.weigh_ite (fun left right =>
    left ∈ clusters.members source ∧ right ∈ clusters.members target)] at hlaw

theorem Graph.liveWeight_conserved_bundled :
    Linkage.check Graph.bundled = .ok () ∧
    ∃ clusters, Clusters.mergeTimes 1 (.ofGraph Graph.bundled) = .ok clusters ∧
      4 ∈ clusters.current ∧ 2 ∈ clusters.current ∧
      ((clusters.edges.filter (Edge.leads 4 2)).map Edge.weight).sum * 2 *
          clusters.populationOf 2 =
        ((Graph.bundled.edges.filter fun edge => edge.source ∈ ({0, 1} : Finset Nat) ∧
          edge.target ∈ clusters.members 2).map Edge.weight).sum := by
  have hcheck : Linkage.check Graph.bundled = .ok () := rfl
  obtain ⟨clusters, hrun, _, hcurrent, hpopulation, hmembers⟩ := Graph.exists_mergeTimes_bundled
  have hsource : 4 ∈ clusters.current := by simp [hcurrent]
  have htarget : 2 ∈ clusters.current := by simp [hcurrent]
  have hlaw := Graph.liveWeight_conserved hcheck hrun hsource htarget (by decide)
  rw [hpopulation, hmembers] at hlaw
  exact ⟨hcheck, clusters, hrun, hsource, htarget, hlaw⟩

end AverageLinkage
