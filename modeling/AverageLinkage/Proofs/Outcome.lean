import Mathlib
import AverageLinkage.Linkage.Basic
import AverageLinkage.Proofs.Run

/-!
# Outcomes of a clustering

A graph is refused because it is too large or because of its first improper edge.
In any other graph the merges that the number of components asks for can all be
done, and no edge is left after them.  It is clustered if there is room for the
arrays; the check of a graph does not see to that.
-/

namespace AverageLinkage

variable {W : Type}

/-- A loop, or an edge with an end outside of the graph. -/
def Edge.Improper (nodeCount : Nat) (edge : Edge W) : Prop :=
  edge.source = edge.target ∨ nodeCount ≤ edge.source ∨ nodeCount ≤ edge.target

/-- The edge with number `index` is improper, and no edge before it is. -/
def FirstImproper (nodeCount : Nat) (edges : List (Edge W)) (index : Nat) (edge : Edge W) : Prop :=
  edges[index]? = some edge ∧ edge.Improper nodeCount ∧
    ∀ earlier < index, ∀ other, edges[earlier]? = some other → ¬other.Improper nodeCount

theorem Linkage.isProper_iff {nodeCount : Nat} {edge : Edge W} :
    Linkage.isProper nodeCount edge = true ↔ ¬edge.Improper nodeCount := by
  simp [Linkage.isProper, Edge.inRange, Edge.Improper]

theorem Graph.proper_iff {graph : Graph W} :
    graph.Proper ↔ ∀ edge ∈ graph.edges, ¬edge.Improper graph.nodeCount := by
  simp [Graph.Proper, Edge.Improper]

/-! ## The first improper edge -/

theorem firstImproper_zero {nodeCount : Nat} {edge : Edge W} (rest : List (Edge W))
    (hedge : edge.Improper nodeCount) : FirstImproper nodeCount (edge :: rest) 0 edge :=
  ⟨rfl, hedge, fun _ hlt => absurd hlt (Nat.not_lt_zero _)⟩

theorem FirstImproper.cons {nodeCount index : Nat} {edge first : Edge W} {rest : List (Edge W)}
    (hrest : FirstImproper nodeCount rest index edge) (hfirst : ¬first.Improper nodeCount) :
    FirstImproper nodeCount (first :: rest) (index + 1) edge := by
  obtain ⟨hedge, himproper, hearlier⟩ := hrest
  refine ⟨hedge, himproper, ?_⟩
  intro earlier hlt other hother
  cases earlier with
  | zero =>
      obtain rfl := Option.some.inj hother
      exact hfirst
  | succ earlier => exact hearlier earlier (by omega) other hother

/-- There is one first improper edge at most. -/
theorem FirstImproper.unique {nodeCount left right : Nat} {edge other : Edge W}
    {edges : List (Edge W)} (hleft : FirstImproper nodeCount edges left edge)
    (hright : FirstImproper nodeCount edges right other) : left = right ∧ edge = other := by
  rcases Nat.lt_trichotomy left right with hlt | rfl | hlt
  · exact absurd hleft.2.1 (hright.2.2 left hlt edge hleft.1)
  · exact ⟨rfl, Option.some.inj (hleft.1.symm.trans hright.1)⟩
  · exact absurd hright.2.1 (hleft.2.2 right hlt other hright.1)

theorem FirstImproper.not_proper {graph : Graph W} {index : Nat} {edge : Edge W}
    (hfirst : FirstImproper graph.nodeCount graph.edges index edge) : ¬graph.Proper :=
  fun hgraph => Graph.proper_iff.mp hgraph edge (List.mem_of_getElem? hfirst.1) hfirst.2.1

/-- Either all edges are proper or the first one that is not is reported. -/
theorem checkEdges_cases (nodeCount start : Nat) (edges : List (Edge W)) :
    ((∀ edge ∈ edges, ¬edge.Improper nodeCount) ∧
        Linkage.checkEdges nodeCount start edges = .ok ()) ∨
      ∃ index edge, FirstImproper nodeCount edges index edge ∧
        Linkage.checkEdges nodeCount start edges =
          .error (.invalidEdge (start + index) edge.source edge.target nodeCount) := by
  induction edges generalizing start with
  | nil => exact .inl ⟨by simp, rfl⟩
  | cons first rest ih =>
      rw [Linkage.checkEdges]
      split
      · next hproper =>
          rw [Linkage.isProper_iff] at hproper
          rcases ih (start + 1) with ⟨hrest, hok⟩ | ⟨index, edge, hfirst, herror⟩
          · exact .inl ⟨by simpa using ⟨hproper, hrest⟩, hok⟩
          · refine .inr ⟨index + 1, edge, hfirst.cons hproper, ?_⟩
            rw [herror, Nat.add_right_comm, Nat.add_assoc]
      · next himproper =>
          rw [Linkage.isProper_iff, not_not] at himproper
          exact .inr ⟨0, first, firstImproper_zero rest himproper, rfl⟩

/-- The checks in their order: the number of nodes, then the edges. -/
theorem Linkage.check_cases (graph : Graph W) :
    (Linkage.idLimit < 2 * graph.nodeCount ∧
        Linkage.check graph = .error (.capacityOverflow graph.nodeCount)) ∨
      (2 * graph.nodeCount ≤ Linkage.idLimit ∧ ∃ index edge,
        FirstImproper graph.nodeCount graph.edges index edge ∧ Linkage.check graph =
          .error (.invalidEdge index edge.source edge.target graph.nodeCount)) ∨
      (2 * graph.nodeCount ≤ Linkage.idLimit ∧ graph.Proper ∧ Linkage.check graph = .ok ()) := by
  rcases Nat.lt_or_ge Linkage.idLimit (2 * graph.nodeCount) with hover | hfits
  · exact .inl ⟨hover, if_pos hover⟩
  · have hcheck : Linkage.check graph = Linkage.checkEdges graph.nodeCount 0 graph.edges :=
      if_neg (Nat.not_lt.mpr hfits)
    rw [hcheck]
    rcases checkEdges_cases graph.nodeCount 0 graph.edges with
      ⟨hproper, hok⟩ | ⟨index, edge, hfirst, herror⟩
    · exact .inr (.inr ⟨hfits, Graph.proper_iff.mpr hproper, hok⟩)
    · rw [Nat.zero_add] at herror
      exact .inr (.inl ⟨hfits, index, edge, hfirst, herror⟩)

/-- The check accepts the graphs that fit and have proper edges only. -/
theorem Linkage.check_eq_ok_iff {graph : Graph W} :
    Linkage.check graph = .ok () ↔ 2 * graph.nodeCount ≤ Linkage.idLimit ∧ graph.Proper := by
  rcases Linkage.check_cases graph with ⟨hover, hcheck⟩ | ⟨_, _, _, hfirst, hcheck⟩ |
    ⟨hfits, hgraph, hcheck⟩
  · simp [hcheck, hover]
  · simp [hcheck, hfirst.not_proper]
  · exact ⟨fun _ => ⟨hfits, hgraph⟩, fun _ => hcheck⟩

theorem Graph.nodeCount_le_wordLimit {graph : Graph W}
    (hfits : 2 * graph.nodeCount ≤ Linkage.idLimit) : graph.nodeCount ≤ Natural.wordLimit := by
  have hlimits : Linkage.idLimit ≤ Natural.wordLimit := by decide
  omega

/-! ## The three outcomes -/

/-- What is read off a result shows that there is one. -/
theorem exists_ok_of_toOption {Fault Answer View : Type} {result : Except Fault Answer}
    {view : Answer → View} {value : View} (hvalue : result.toOption.map view = some value) :
    ∃ answer, result = .ok answer ∧ view answer = value := by
  cases result with
  | error fault => simp [Except.toOption] at hvalue
  | ok answer => exact ⟨answer, rfl, Option.some.inj hvalue⟩

/-- Every component has a node. -/
theorem Graph.count_components_le {graph : Graph W} (hgraph : graph.Proper) :
    graph.components.count ≤ graph.nodeCount := by
  have hle := (Clusters.invariant_ofGraph hgraph).count_le_card hgraph
  rwa [Clusters.current_ofGraph, Finset.card_range] at hle

section

variable [Weight W]

/-- What a clustering that succeeds returns. -/
def Graph.Clustered (graph : Graph W) (linkage : Linkage W) : Prop :=
  linkage.leafCount = graph.nodeCount ∧ linkage.componentCount = graph.components.count ∧
    Clusters.mergeTimes (graph.nodeCount - graph.components.count) (.ofGraph graph) =
      .ok linkage.clusters

/-- A proper graph never runs out of edges before every component is one cluster. -/
theorem Graph.exists_clustered {graph : Graph W} (hgraph : graph.Proper) :
    ∃ linkage, graph.Clustered linkage ∧
      Linkage.mergeAll graph graph.components.count = .ok linkage := by
  have hinv := Clusters.invariant_ofGraph hgraph
  have hcount : graph.nodeCount - graph.components.count + graph.components.count ≤
      (Clusters.ofGraph graph).current.card := by
    rw [Clusters.current_ofGraph, Finset.card_range,
      Nat.sub_add_cancel (Graph.count_components_le hgraph)]
  obtain ⟨clusters, hclusters⟩ := hinv.exists_mergeTimes hgraph hcount
  refine ⟨⟨graph.nodeCount, graph.components.count, clusters⟩, ⟨rfl, rfl, hclusters⟩, ?_⟩
  simp [Linkage.mergeAll, hclusters]

/-- Given room for its arrays a clustering has three outcomes. -/
theorem Graph.cluster_cases (graph : Graph W) :
    (Linkage.idLimit < 2 * graph.nodeCount ∧
        graph.cluster = .error (.capacityOverflow graph.nodeCount)) ∨
      (2 * graph.nodeCount ≤ Linkage.idLimit ∧ ∃ index edge,
        FirstImproper graph.nodeCount graph.edges index edge ∧ graph.cluster =
          .error (.invalidEdge index edge.source edge.target graph.nodeCount)) ∨
      (2 * graph.nodeCount ≤ Linkage.idLimit ∧ graph.Proper ∧
        ∃ linkage, graph.Clustered linkage ∧ graph.cluster = .ok linkage) := by
  rcases Linkage.check_cases graph with ⟨hover, hcheck⟩ | ⟨hfits, index, edge, hfirst, hcheck⟩ |
    ⟨hfits, hgraph, hcheck⟩
  · refine .inl ⟨hover, ?_⟩
    simp [Graph.cluster, hcheck, bind, Except.bind]
  · refine .inr (.inl ⟨hfits, index, edge, hfirst, ?_⟩)
    simp [Graph.cluster, hcheck, bind, Except.bind]
  · obtain ⟨linkage, hlinkage, hmerge⟩ := Graph.exists_clustered hgraph
    refine .inr (.inr ⟨hfits, hgraph, linkage, hlinkage, ?_⟩)
    simp [Graph.cluster, hcheck, hmerge, bind, Except.bind]

/-- A graph with too many nodes is not clustered, whatever its edges are. -/
theorem Graph.cluster_eq_of_lt {graph : Graph W}
    (hover : Linkage.idLimit < 2 * graph.nodeCount) :
    graph.cluster = .error (.capacityOverflow graph.nodeCount) := by
  rcases graph.cluster_cases with ⟨_, hrun⟩ | ⟨hfits, _⟩ | ⟨hfits, _⟩
  · exact hrun
  · exact absurd hfits (Nat.not_le.mpr hover)
  · exact absurd hfits (Nat.not_le.mpr hover)

theorem Graph.exists_cluster_iff {graph : Graph W} :
    (∃ linkage, graph.cluster = .ok linkage) ↔
      2 * graph.nodeCount ≤ Linkage.idLimit ∧ graph.Proper := by
  rcases graph.cluster_cases with ⟨hover, hrun⟩ | ⟨_, _, _, hfirst, hrun⟩ |
    ⟨hfits, hgraph, linkage, _, hrun⟩
  · simp [hrun, hover]
  · simp [hrun, hfirst.not_proper]
  · exact ⟨fun _ => ⟨hfits, hgraph⟩, fun _ => ⟨linkage, hrun⟩⟩

theorem Graph.proper_of_cluster {graph : Graph W} {linkage : Linkage W}
    (hrun : graph.cluster = .ok linkage) : graph.Proper ∧ graph.Clustered linkage := by
  rcases graph.cluster_cases with ⟨_, herror⟩ | ⟨_, _, _, _, herror⟩ | ⟨_, hgraph, _, hlinkage, hok⟩
  · simp [hrun] at herror
  · simp [hrun] at herror
  · rw [hrun] at hok
    obtain rfl := Except.ok.inj hok
    exact ⟨hgraph, hlinkage⟩

theorem Graph.Clustered.reached {graph : Graph W} {linkage : Linkage W}
    (hlinkage : graph.Clustered linkage) :
    Clusters.Reached (.ofGraph graph) linkage.clusters :=
  ⟨_, hlinkage.2.2⟩

theorem Graph.Clustered.invariant {graph : Graph W} {linkage : Linkage W}
    (hlinkage : graph.Clustered linkage) (hgraph : graph.Proper) :
    Clusters.Invariant graph linkage.clusters :=
  hlinkage.reached.invariant hgraph

theorem Graph.Clustered.size_merges {graph : Graph W} {linkage : Linkage W}
    (hlinkage : graph.Clustered linkage) :
    linkage.merges.size = graph.nodeCount - graph.components.count :=
  Clusters.size_merges_of_mergeTimes hlinkage.2.2

/-- In the end every component is one cluster. -/
theorem Graph.Clustered.card_current {graph : Graph W} {linkage : Linkage W}
    (hlinkage : graph.Clustered linkage) (hgraph : graph.Proper) :
    linkage.clusters.current.card = graph.components.count := by
  have hcard := Clusters.card_current_of_mergeTimes hgraph hlinkage.2.2
  have hle := Graph.count_components_le hgraph
  omega

/-- Clusters that are different components have no edge between them. -/
theorem Graph.Clustered.edges_eq_nil {graph : Graph W} {linkage : Linkage W}
    (hlinkage : graph.Clustered linkage) (hgraph : graph.Proper) :
    linkage.clusters.edges = [] :=
  ((hlinkage.invariant hgraph).edges_eq_nil_iff hgraph).mpr (hlinkage.card_current hgraph)

/-- A run that has used up its edges is the whole clustering. -/
theorem Graph.exists_cluster_of_reached {graph : Graph W}
    (hfits : 2 * graph.nodeCount ≤ Linkage.idLimit) (hgraph : graph.Proper)
    {clusters : Clusters W} (hreached : Clusters.Reached (.ofGraph graph) clusters)
    (hedges : clusters.edges = []) :
    ∃ linkage, graph.cluster = .ok linkage ∧ linkage.clusters = clusters := by
  obtain ⟨linkage, hcluster⟩ := Graph.exists_cluster_iff.mpr ⟨hfits, hgraph⟩
  obtain ⟨count, hrun⟩ := hreached
  have hlinkage := (Graph.proper_of_cluster hcluster).2
  have hinv := Clusters.invariant_of_mergeTimes hgraph hrun
  -- both runs end with one cluster for every component, so they have as many merges
  have hcount : count = graph.nodeCount - graph.components.count := by
    have hcard := Clusters.card_current_of_mergeTimes hgraph hrun
    rw [(hinv.edges_eq_nil_iff hgraph).mp hedges] at hcard
    omega
  rw [hcount, hlinkage.2.2] at hrun
  exact ⟨linkage, hcluster, Except.ok.inj hrun⟩

/-- Before the last merge there is always an edge to merge along. -/
theorem Graph.exists_edge_of_lt {graph : Graph W} (hgraph : graph.Proper) {step : Nat}
    (hstep : step < graph.nodeCount - graph.components.count) :
    ∃ clusters, Clusters.mergeTimes step (.ofGraph graph) = .ok clusters ∧
      clusters.edges ≠ [] := by
  have hstart := Clusters.invariant_ofGraph hgraph
  have hcount : step + graph.components.count ≤ (Clusters.ofGraph graph).current.card := by
    rw [Clusters.current_ofGraph, Finset.card_range]
    omega
  obtain ⟨clusters, hclusters⟩ := hstart.exists_mergeTimes hgraph hcount
  refine ⟨clusters, hclusters, ?_⟩
  have hinv := Clusters.invariant_of_mergeTimes hgraph hclusters
  have hcard := Clusters.card_current_of_mergeTimes hgraph hclusters
  rw [Ne, hinv.edges_eq_nil_iff hgraph]
  omega

/-! ## Room for the arrays -/

theorem Linkage.hasRoom_entries {count : Nat} :
    Linkage.hasRoom (2 * count) Linkage.entryWidth = true ↔ count < 2 ^ 59 := by
  rw [Linkage.hasRoom, decide_eq_true_eq, Linkage.entryWidth, Linkage.arrayLimit]
  omega

theorem Linkage.hasRoom_nodes {count : Nat} :
    Linkage.hasRoom count Linkage.nodeWidth = true ↔ 56 * count < 2 ^ 63 := by
  rw [Linkage.hasRoom, decide_eq_true_eq, Linkage.nodeWidth, Linkage.arrayLimit]
  omega

/-- A clustering can also break down, before its first merge or after its last one. -/
theorem Graph.clusterEnding_cases (graph : Graph W) :
    (Linkage.idLimit < 2 * graph.nodeCount ∧
        graph.clusterEnding = .refused (.capacityOverflow graph.nodeCount)) ∨
      (2 * graph.nodeCount ≤ Linkage.idLimit ∧ ∃ index edge,
        FirstImproper graph.nodeCount graph.edges index edge ∧ graph.clusterEnding =
          .refused (.invalidEdge index edge.source edge.target graph.nodeCount)) ∨
      (2 * graph.nodeCount ≤ Linkage.idLimit ∧ graph.Proper ∧ 2 ^ 59 ≤ graph.nodeCount ∧
        graph.clusterEnding = .breakdown (2 * graph.nodeCount) 8) ∨
      (2 * graph.nodeCount ≤ Linkage.idLimit ∧ graph.Proper ∧ graph.nodeCount < 2 ^ 59 ∧
        2 ^ 63 ≤ 56 * (2 * graph.nodeCount - graph.components.count) ∧
        graph.clusterEnding =
          .breakdown (2 * graph.nodeCount - graph.components.count) 56) ∨
      (2 * graph.nodeCount ≤ Linkage.idLimit ∧ graph.Proper ∧ graph.nodeCount < 2 ^ 59 ∧
        56 * (2 * graph.nodeCount - graph.components.count) < 2 ^ 63 ∧
        ∃ linkage, graph.cluster = .ok linkage ∧ graph.clusterEnding = .clustered linkage) := by
  unfold Graph.clusterEnding
  rcases Linkage.check_cases graph with ⟨hover, hcheck⟩ | ⟨hfits, index, edge, hfirst, hcheck⟩ |
    ⟨hfits, hgraph, hcheck⟩
  · exact .inl ⟨hover, by simp only [hcheck]⟩
  · exact .inr (.inl ⟨hfits, index, edge, hfirst, by simp only [hcheck]⟩)
  · obtain ⟨linkage, ⟨-, hcomponents, -⟩, hmerge⟩ := Graph.exists_clustered hgraph
    have hcluster : graph.cluster = .ok linkage := by
      simp [Graph.cluster, hcheck, hmerge, bind, Except.bind]
    refine .inr (.inr ?_)
    simp only [hcheck, hmerge, hcomponents, Linkage.hasRoom_entries, Linkage.hasRoom_nodes]
    rcases Nat.lt_or_ge graph.nodeCount (2 ^ 59) with hentries | hentries
    · rcases Nat.lt_or_ge (56 * (2 * graph.nodeCount - graph.components.count)) (2 ^ 63) with
        hnodes | hnodes
      · refine .inr (.inr ⟨hfits, hgraph, hentries, hnodes, linkage, hcluster, ?_⟩)
        rw [if_pos hentries, if_pos hnodes]
      · refine .inr (.inl ⟨hfits, hgraph, hentries, hnodes, ?_⟩)
        rw [if_pos hentries, if_neg (Nat.not_lt.mpr hnodes), Linkage.nodeWidth]
    · refine .inl ⟨hfits, hgraph, hentries, ?_⟩
      rw [if_neg (Nat.not_lt.mpr hentries), Linkage.entryWidth]

/-- The arrays that there may be no room for: those with an entry for each cluster, and then the
nodes of the forest. -/
theorem Graph.clusterEnding_eq_breakdown_iff {graph : Graph W} {entries width : Nat} :
    graph.clusterEnding = .breakdown entries width ↔
      2 * graph.nodeCount ≤ Linkage.idLimit ∧ graph.Proper ∧
      (2 ^ 59 ≤ graph.nodeCount ∧ entries = 2 * graph.nodeCount ∧ width = 8 ∨
        graph.nodeCount < 2 ^ 59 ∧
          2 ^ 63 ≤ 56 * (2 * graph.nodeCount - graph.components.count) ∧
          entries = 2 * graph.nodeCount - graph.components.count ∧ width = 56) := by
  rcases graph.clusterEnding_cases with ⟨hover, hend⟩ | ⟨_, _, _, hfirst, hend⟩ |
    ⟨hfits, hgraph, hentries, hend⟩ | ⟨hfits, hgraph, hentries, hnodes, hend⟩ |
    ⟨_, _, hentries, hnodes, _, _, hend⟩ <;> rw [hend]
  · simp [hover]
  · simp [hfirst.not_proper]
  · constructor
    · rintro ⟨⟩
      exact ⟨hfits, hgraph, .inl ⟨hentries, rfl, rfl⟩⟩
    · rintro ⟨-, -, ⟨-, rfl, rfl⟩ | ⟨hfew, -⟩⟩
      · rfl
      · exact absurd hentries (Nat.not_le.mpr hfew)
  · constructor
    · rintro ⟨⟩
      exact ⟨hfits, hgraph, .inr ⟨hentries, hnodes, rfl, rfl⟩⟩
    · rintro ⟨-, -, ⟨hmany, -⟩ | ⟨-, -, rfl, rfl⟩⟩
      · exact absurd hentries (Nat.not_lt.mpr hmany)
      · rfl
  · simp only [reduceCtorEq, false_iff]
    rintro ⟨-, -, ⟨hmany, -⟩ | ⟨-, hlong, -⟩⟩
    · exact absurd hentries (Nat.not_lt.mpr hmany)
    · exact absurd hnodes (Nat.not_lt.mpr hlong)

theorem Graph.exists_clusterEnding_iff {graph : Graph W} :
    (∃ linkage, graph.clusterEnding = .clustered linkage) ↔
      graph.Proper ∧ graph.nodeCount < 2 ^ 59 ∧
        56 * (2 * graph.nodeCount - graph.components.count) < 2 ^ 63 := by
  rcases graph.clusterEnding_cases with ⟨hover, hend⟩ | ⟨_, _, _, hfirst, hend⟩ |
    ⟨_, _, hentries, hend⟩ | ⟨_, _, _, hnodes, hend⟩ |
    ⟨_, hgraph, hentries, hnodes, linkage, _, hend⟩
  case inr.inr.inr.inr => exact ⟨fun _ => ⟨hgraph, hentries, hnodes⟩, fun _ => ⟨linkage, hend⟩⟩
  all_goals
    simp only [hend, reduceCtorEq, exists_false, false_iff]
    rintro ⟨hgraph, hfew, hshort⟩
  · rw [Linkage.idLimit] at hover
    omega
  · exact hfirst.not_proper hgraph
  · exact absurd hfew (Nat.not_lt.mpr hentries)
  · exact absurd hshort (Nat.not_lt.mpr hnodes)

/-- How a clustering ends, whatever the weights are.  A graph is refused exactly if
twice its number of nodes does not fit, or else if it has an improper edge, of
which the first one is named.  In every other graph each of the merges asked for
finds an edge, and the last one leaves none.  Such a graph is clustered exactly if
there is room for its arrays: it must have fewer than `2 ^ 59` nodes, and the nodes
of its forest must take fewer than `2 ^ 63` bytes.  Otherwise the clustering breaks
down over the first array that is too long. -/
theorem Graph.clusterEnding_outcome (graph : Graph W) :
    (∀ count, graph.clusterEnding = .refused (.capacityOverflow count) ↔
      Linkage.idLimit < 2 * graph.nodeCount ∧ count = graph.nodeCount) ∧
    (∀ index source target count,
      graph.clusterEnding = .refused (.invalidEdge index source target count) ↔
        2 * graph.nodeCount ≤ Linkage.idLimit ∧ count = graph.nodeCount ∧
          ∃ edge, FirstImproper graph.nodeCount graph.edges index edge ∧
            edge.source = source ∧ edge.target = target) ∧
    (∀ merge expected, graph.clusterEnding ≠ .refused (.edgesExhausted merge expected)) ∧
    (∀ entries width, graph.clusterEnding = .breakdown entries width ↔
      2 * graph.nodeCount ≤ Linkage.idLimit ∧
      (∀ edge ∈ graph.edges, ¬edge.Improper graph.nodeCount) ∧
      (2 ^ 59 ≤ graph.nodeCount ∧ entries = 2 * graph.nodeCount ∧ width = 8 ∨
        graph.nodeCount < 2 ^ 59 ∧
          2 ^ 63 ≤ 56 * (2 * graph.nodeCount - graph.components.count) ∧
          entries = 2 * graph.nodeCount - graph.components.count ∧ width = 56)) ∧
    ((∃ linkage, graph.clusterEnding = .clustered linkage) ↔
      (∀ edge ∈ graph.edges, ¬edge.Improper graph.nodeCount) ∧ graph.nodeCount < 2 ^ 59 ∧
        56 * (2 * graph.nodeCount - graph.components.count) < 2 ^ 63) ∧
    ((∀ edge ∈ graph.edges, ¬edge.Improper graph.nodeCount) →
      graph.components.count ≤ graph.nodeCount ∧
      (∀ step < graph.nodeCount - graph.components.count, ∃ clusters,
        Clusters.mergeTimes step (.ofGraph graph) = .ok clusters ∧ clusters.edges ≠ []) ∧
      ∃ clusters, Clusters.mergeTimes (graph.nodeCount - graph.components.count)
        (.ofGraph graph) = .ok clusters ∧ clusters.edges = []) ∧
    ∀ linkage, graph.clusterEnding = .clustered linkage →
      graph.cluster = .ok linkage ∧ linkage.leafCount = graph.nodeCount ∧
      linkage.componentCount = graph.components.count ∧
      linkage.merges.size = graph.nodeCount - graph.components.count ∧
      Clusters.mergeTimes (graph.nodeCount - graph.components.count) (.ofGraph graph) =
        .ok linkage.clusters := by
  simp only [← Graph.proper_iff]
  refine ⟨?_, ?_, ?_, ?_, ?_, ?_, ?_⟩
  · intro count
    rcases graph.clusterEnding_cases with ⟨hover, hend⟩ | ⟨hfits, _, _, _, hend⟩ |
      ⟨hfits, _, _, hend⟩ | ⟨hfits, _, _, _, hend⟩ | ⟨hfits, _, _, _, _, _, hend⟩
    · simp [hend, hover, eq_comm]
    all_goals simp [hend, hfits]
  · intro index source target count
    rcases graph.clusterEnding_cases with ⟨hover, hend⟩ | ⟨hfits, number, edge, hfirst, hend⟩ |
      ⟨_, hgraph, _, hend⟩ | ⟨_, hgraph, _, _, hend⟩ | ⟨_, hgraph, _, _, _, _, hend⟩
    · simp [hend, hover]
    · rw [hend]
      constructor
      · intro herror
        simp only [Linkage.Ending.refused.injEq, Linkage.Fault.invalidEdge.injEq] at herror
        obtain ⟨rfl, rfl, rfl, rfl⟩ := herror
        exact ⟨hfits, rfl, edge, hfirst, rfl, rfl⟩
      · rintro ⟨_, rfl, other, hother, rfl, rfl⟩
        obtain ⟨rfl, rfl⟩ := hfirst.unique hother
        rfl
    all_goals
      simp only [hend, reduceCtorEq, false_iff]
      rintro ⟨_, _, edge, hfirst, _⟩
      exact hfirst.not_proper hgraph
  · intro merge expected
    rcases graph.clusterEnding_cases with ⟨_, hend⟩ | ⟨_, _, _, _, hend⟩ | ⟨_, _, _, hend⟩ |
      ⟨_, _, _, _, hend⟩ | ⟨_, _, _, _, _, _, hend⟩ <;> simp [hend]
  · intro entries width
    exact Graph.clusterEnding_eq_breakdown_iff
  · exact Graph.exists_clusterEnding_iff
  · intro hgraph
    obtain ⟨linkage, hlinkage, -⟩ := Graph.exists_clustered hgraph
    exact ⟨Graph.count_components_le hgraph, fun _ hstep => Graph.exists_edge_of_lt hgraph hstep,
      linkage.clusters, hlinkage.2.2, hlinkage.edges_eq_nil hgraph⟩
  · intro linkage hlinkage
    rcases graph.clusterEnding_cases with ⟨_, hend⟩ | ⟨_, _, _, _, hend⟩ | ⟨_, _, _, hend⟩ |
      ⟨_, _, _, _, hend⟩ | ⟨_, _, _, _, other, hcluster, hend⟩
    case inr.inr.inr.inr =>
      obtain rfl : other = linkage := by simpa [hlinkage, eq_comm] using hend
      obtain ⟨-, hclustered⟩ := Graph.proper_of_cluster hcluster
      exact ⟨hcluster, hclustered.1, hclustered.2.1, hclustered.size_merges, hclustered.2.2⟩
    all_goals simp [hend] at hlinkage

end

/-- A graph without edges whose number of nodes fits, while there is no room for the
arrays of its clusters. -/
def Graph.vast : Graph Float :=
  { nodeCount := 0x800000000000000, edges := [] }

/-- The graph passes every check, and clustering it breaks down. -/
theorem Graph.clusterEnding_vast :
    Graph.vast.nodeCount = 2 ^ 59 ∧ 2 * Graph.vast.nodeCount ≤ Linkage.idLimit ∧
      (∀ edge ∈ Graph.vast.edges, ¬edge.Improper Graph.vast.nodeCount) ∧
      Linkage.check Graph.vast = .ok () ∧
      Graph.vast.clusterEnding = .breakdown (2 ^ 60) 8 :=
  ⟨by decide, by decide, by simp [Graph.vast], rfl, rfl⟩

end AverageLinkage
