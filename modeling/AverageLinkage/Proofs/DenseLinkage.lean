import Mathlib
import AverageLinkage.Proofs.Conservation
import AverageLinkage.Proofs.HeaviestEdge
import AverageLinkage.Proofs.Outcome

/-!
# Dense average linkage

The plain form of average linkage keeps a partition of the nodes.  It knows the
affinity of every pair of nodes, zero for a pair that is not listed, and merges
two sets of largest mean affinity among those that a listed pair joins.  With
exact weights, clustering a graph that lists every pair once in each direction
is a run of this procedure.
-/

namespace AverageLinkage

variable {W : Type}

def Edge.reverse (edge : Edge W) : Edge W :=
  { source := edge.target, target := edge.source, weight := edge.weight }

/-- The edges of the graph are the given pairs of nodes, each of them once in
each direction and with the same weight, in any order. -/
structure Graph.Lists (graph : Graph W) (pairs : List (Edge W)) : Prop where
  proper : ∀ pair ∈ pairs, pair.source ≠ pair.target ∧
    pair.source < graph.nodeCount ∧ pair.target < graph.nodeCount
  distinct : pairs.Pairwise fun pair other => other.joins pair.source pair.target = false
  edges_perm : graph.edges.Perm (pairs.flatMap fun pair => [pair, pair.reverse])

/-! ## The plain procedure -/

namespace Dense

/-- A pair of nodes lies between two sets. -/
def Crosses (left right : Finset Nat) (pair : Edge W) : Prop :=
  pair.source ∈ left ∧ pair.target ∈ right ∨ pair.source ∈ right ∧ pair.target ∈ left

instance decidableCrosses (left right : Finset Nat) (pair : Edge W) :
    Decidable (Crosses left right pair) :=
  inferInstanceAs (Decidable (_ ∨ _))

/-- At least one listed pair lies between two sets. -/
def Joined (pairs : List (Edge W)) (left right : Finset Nat) : Prop :=
  ∃ pair ∈ pairs, Crosses left right pair

/-- The mean affinity of the pairs of nodes between two sets, listed or not. -/
def meanAffinity (pairs : List (Edge ℚ)) (left right : Finset Nat) : ℚ :=
  ((pairs.filter fun pair => Crosses left right pair).map Edge.weight).sum /
    (left.card * right.card)

/-- Two different sets of a partition may be merged at `height`: a pair joins
them, `height` is their mean affinity, and no two joined sets have a larger one. -/
structure Step (pairs : List (Edge ℚ)) (partition : Finset (Finset Nat))
    (left right : Finset Nat) (height : ℚ) : Prop where
  left_mem : left ∈ partition
  right_mem : right ∈ partition
  ne : left ≠ right
  joined : Joined pairs left right
  height_eq : height = meanAffinity pairs left right
  largest : ∀ first ∈ partition, ∀ second ∈ partition, first ≠ second →
    Joined pairs first second → meanAffinity pairs first second ≤ height

def singletons (nodeCount : Nat) : Finset (Finset Nat) :=
  (Finset.range nodeCount).image fun node => {node}

/-- The merges that may be made one after the other, and the partition that they
lead to. -/
inductive Run (pairs : List (Edge ℚ)) (nodeCount : Nat) :
    List (Finset Nat × Finset Nat × ℚ) → Finset (Finset Nat) → Prop
  | start : Run pairs nodeCount [] (singletons nodeCount)
  | merge {merges : List (Finset Nat × Finset Nat × ℚ)} {partition : Finset (Finset Nat)}
      {left right : Finset Nat} {height : ℚ} (hrun : Run pairs nodeCount merges partition)
      (hstep : Step pairs partition left right height) :
      Run pairs nodeCount (merges ++ [(left, right, height)])
        (insert (left ∪ right) ((partition.erase left).erase right))

end Dense

def Clusters.leafSets (clusters : Clusters W) : Finset (Finset Nat) :=
  clusters.current.image clusters.members

/-- The merges so far, each by the leaves of its two parts and its height. -/
def Clusters.leafMerges (clusters : Clusters W) : List (Finset Nat × Finset Nat × W) :=
  clusters.merges.toList.map fun merge =>
    (clusters.members merge.left, clusters.members merge.right, merge.height)

/-- A merge is recorded after the others, whose parts it does not change. -/
theorem Clusters.Recorded.leafMerges_merge [Weight W] {leafCount : Nat} {clusters : Clusters W}
    (hrec : Recorded leafCount clusters) (edge : Edge W)
    (hsource : edge.source < clusters.parent.size)
    (htarget : edge.target < clusters.parent.size) :
    (clusters.merge edge).leafMerges = clusters.leafMerges ++
      [(clusters.members edge.source, clusters.members edge.target, edge.weight)] := by
  have hkept : ∀ id < clusters.parent.size,
      (clusters.merge edge).members id = clusters.members id :=
    fun id hid => members_merge_of_lt clusters edge hid
  have hmerges : (clusters.merge edge).merges.toList = clusters.merges.toList ++
      [⟨clusters.parent.size, edge.source, edge.target, edge.weight⟩] := by
    simp [Clusters.merge]
  rw [leafMerges, hmerges, List.map_append, List.map_singleton, hkept _ hsource, hkept _ htarget]
  congr 1
  refine List.map_congr_left fun merge hmerge => ?_
  rw [Array.mem_toList_iff] at hmerge
  obtain ⟨hleft, hright⟩ := hrec.parts_lt merge hmerge
  have hnode := (hrec.node_bounds hmerge).2
  rw [hkept _ (hleft.trans hnode), hkept _ (hright.trans hnode)]

/-! ## Graphs that list pairs -/

namespace Graph.Lists

theorem mem_edges_iff {graph : Graph W} {pairs : List (Edge W)} (hlists : graph.Lists pairs)
    {edge : Edge W} :
    edge ∈ graph.edges ↔ ∃ pair ∈ pairs, edge = pair ∨ edge = pair.reverse := by
  rw [hlists.edges_perm.mem_iff]
  simp

theorem graph_proper {graph : Graph W} {pairs : List (Edge W)} (hlists : graph.Lists pairs) :
    graph.Proper := by
  intro edge hedge
  obtain ⟨pair, hpair, rfl | rfl⟩ := hlists.mem_edges_iff.mp hedge
  · exact hlists.proper edge hpair
  · obtain ⟨hne, hsource, htarget⟩ := hlists.proper pair hpair
    exact ⟨hne.symm, htarget, hsource⟩

/-- As many edges lead from one node to another one as pairs join the two. -/
theorem length_filter_leads {pairs : List (Edge W)}
    (hne : ∀ pair ∈ pairs, pair.source ≠ pair.target) (source target : Nat) :
    ((pairs.flatMap fun pair => [pair, pair.reverse]).filter (Edge.leads source target)).length =
      (pairs.filter (Edge.joins source target)).length := by
  induction pairs with
  | nil => rfl
  | cons pair rest ih =>
      have hpair := hne pair List.mem_cons_self
      have hboth : ([pair, pair.reverse].filter (Edge.leads source target)).length =
          if pair.joins source target then 1 else 0 := by
        simp only [List.filter_cons, List.filter_nil, Edge.leads, Edge.joins, Edge.reverse]
        grind
      rw [List.flatMap_cons, List.filter_append, List.length_append, hboth,
        ih fun other hother => hne other (List.mem_cons_of_mem pair hother), List.filter_cons]
      split
      · rw [List.length_cons, Nat.add_comm]
      · rw [Nat.zero_add]

/-- No pair is listed twice, so no edge is. -/
theorem simple {graph : Graph W} {pairs : List (Edge W)} (hlists : graph.Lists pairs) :
    Clusters.Simple graph.edges := by
  intro source target
  have hperm := (hlists.edges_perm.filter (Edge.leads source target)).length_eq
  rw [Clusters.weightsBetween, List.length_map, hperm,
    length_filter_leads fun pair hpair => (hlists.proper pair hpair).1]
  have hdistinct := hlists.distinct.filter (Edge.joins source target)
  have hjoins : ∀ pair ∈ pairs.filter (Edge.joins source target),
      pair.joins source target = true := fun pair hpair => (List.mem_filter.mp hpair).2
  cases hfilter : pairs.filter (Edge.joins source target) with
  | nil => simp
  | cons first others =>
      cases others with
      | nil => simp
      | cons second rest =>
          rw [hfilter] at hdistinct hjoins
          have hfirst := hjoins first (by simp)
          have hsecond := hjoins second (by simp)
          have hapart := List.rel_of_pairwise_cons hdistinct (List.mem_cons_self : second ∈ _)
          simp only [Edge.joins, Bool.or_eq_true, Bool.and_eq_true, beq_iff_eq] at hfirst hsecond
          simp only [Edge.joins] at hapart
          grind

variable {graph : Graph ℚ} {pairs : List (Edge ℚ)}

/-- What leads from one set to another one weighs as much as the pairs between
the two. -/
theorem weigh_edges (hlists : graph.Lists pairs) {left right : Finset Nat}
    (hdisjoint : Disjoint left right) :
    Clusters.weigh (fun source target => if source ∈ left ∧ target ∈ right then 1 else 0)
        graph.edges =
      ((pairs.filter fun pair => Dense.Crosses left right pair).map Edge.weight).sum := by
  have hperm : Clusters.weigh (fun source target => if source ∈ left ∧ target ∈ right then 1 else 0)
      graph.edges = Clusters.weigh
        (fun source target => if source ∈ left ∧ target ∈ right then 1 else 0)
        (pairs.flatMap fun pair => [pair, pair.reverse]) :=
    (hlists.edges_perm.map _).sum_eq
  rw [hperm]
  clear hlists hperm
  induction pairs with
  | nil => rfl
  | cons pair rest ih =>
      -- the pair counts once, since it cannot cross in both directions
      have hboth : pair.weight * (if pair.source ∈ left ∧ pair.target ∈ right then 1 else 0) +
          pair.reverse.weight *
            (if pair.reverse.source ∈ left ∧ pair.reverse.target ∈ right then 1 else 0) =
          if Dense.Crosses left right pair then pair.weight else 0 := by
        have hapart : pair.source ∈ left → pair.source ∉ right :=
          fun hmem => Finset.disjoint_left.mp hdisjoint hmem
        by_cases hto : pair.source ∈ left ∧ pair.target ∈ right
        · simp [Edge.reverse, Dense.Crosses, hto, hapart hto.1]
        · by_cases hfrom : pair.target ∈ left ∧ pair.source ∈ right <;>
            simp [Edge.reverse, Dense.Crosses, hto, hfrom, and_comm]
      rw [List.flatMap_cons, List.cons_append, List.cons_append, List.nil_append,
        Clusters.weigh_cons, Clusters.weigh_cons, ih, ← add_assoc, hboth, List.filter_cons]
      by_cases hpair : Dense.Crosses left right pair <;> simp [hpair]

/-- Sets are joined if and only if an edge of the graph leads from one to the other. -/
theorem joined_iff (hlists : graph.Lists pairs) {left right : Finset Nat} :
    Dense.Joined pairs left right ↔
      ∃ edge ∈ graph.edges, edge.source ∈ left ∧ edge.target ∈ right := by
  constructor
  · rintro ⟨pair, hpair, hcross | hcross⟩
    · exact ⟨pair, hlists.mem_edges_iff.mpr ⟨pair, hpair, .inl rfl⟩, hcross⟩
    · exact ⟨pair.reverse, hlists.mem_edges_iff.mpr ⟨pair, hpair, .inr rfl⟩, hcross.symm⟩
  · rintro ⟨edge, hedge, hends⟩
    obtain ⟨pair, hpair, rfl | rfl⟩ := hlists.mem_edges_iff.mp hedge
    · exact ⟨edge, hpair, .inl hends⟩
    · exact ⟨pair, hpair, .inr hends.symm⟩

end Graph.Lists

/-! ## The clustering keeps the mean affinities -/

namespace Clusters

/-- No live edge is heavier than the heaviest one. -/
theorem weight_le_of_heaviest? {edges : List (Edge ℚ)} {best : Edge ℚ}
    (hbest : heaviest? edges = some best) : ∀ edge ∈ edges, edge.weight ≤ best.weight := by
  have hnumbers : ∀ edge ∈ edges, edge.weight ∈ (Set.univ : Set ℚ) := by simp
  have hfirst := firstHeaviest_of_heaviest? Weight.ordered_rat hnumbers hbest
  intro edge hedge
  exact not_lt.mp (hfirst.not_lt Weight.ordered_rat hnumbers edge hedge)

/-- What a state of a run with exact weights satisfies if the graph has no two
parallel edges. -/
structure Exact (graph : Graph ℚ) (clusters : Clusters ℚ) : Prop where
  invariant : Invariant graph clusters
  conserved : Conserved graph clusters
  simple : Simple clusters.edges

theorem exact_ofGraph {graph : Graph ℚ} (hgraph : graph.Proper) (hsimple : Simple graph.edges) :
    Exact graph (ofGraph graph) :=
  ⟨invariant_ofGraph hgraph, conserved_ofGraph hgraph, hsimple⟩

/-- Exactness lasts over a merge along a live edge. -/
theorem Exact.merge {graph : Graph ℚ} {clusters : Clusters ℚ} (hexact : Exact graph clusters)
    (hgraph : graph.Proper) {edge : Edge ℚ} (hedge : edge ∈ clusters.edges) :
    Exact graph (clusters.merge edge) :=
  ⟨hexact.invariant.merge hgraph hedge,
    hexact.conserved.merge hexact.invariant hgraph hedge, hexact.simple.apply⟩

variable {graph : Graph ℚ} {pairs : List (Edge ℚ)} {clusters : Clusters ℚ}

/-- A live edge carries the mean affinity of its two clusters. -/
theorem Exact.weight_eq_meanAffinity (hexact : Exact graph clusters)
    (hlists : graph.Lists pairs) {edge : Edge ℚ} (hedge : edge ∈ clusters.edges) :
    edge.weight = Dense.meanAffinity pairs (clusters.members edge.source)
      (clusters.members edge.target) := by
  have hinv := hexact.invariant
  have hpart := hinv.partitioned
  have hgraph := hlists.graph_proper
  obtain ⟨hsource, htarget⟩ := hinv.live.ends_mem hgraph hpart hedge
  have hne := (hinv.live.exists_mem hedge).1
  have hlaw := hexact.conserved.sum_weightsBetween hinv hgraph hsource htarget hne
  rw [hexact.simple.weightsBetween_eq hedge, List.sum_singleton,
    hlists.weigh_edges (hpart.disjoint_members hsource htarget hne),
    hpart.population_eq _ (mem_current.mp hsource).1,
    hpart.population_eq _ (mem_current.mp htarget).1, mul_assoc] at hlaw
  have hcard : ∀ id ∈ clusters.current, ((clusters.members id).card : ℚ) ≠ 0 := by
    intro id hid
    have hnonempty := hpart.members_nonempty hinv.recorded (mem_current.mp hid).1
    exact_mod_cast hnonempty.card_pos.ne'
  rw [Dense.meanAffinity, ← hlaw]
  exact (mul_div_cancel_right₀ _ (mul_ne_zero (hcard _ hsource) (hcard _ htarget))).symm

/-- Two current clusters are joined by a pair exactly if a live edge leads from
one to the other one. -/
theorem Exact.joined_iff (hexact : Exact graph clusters) (hlists : graph.Lists pairs)
    {source target : Nat} (hsource : source ∈ clusters.current)
    (htarget : target ∈ clusters.current) (hne : source ≠ target) :
    Dense.Joined pairs (clusters.members source) (clusters.members target) ↔
      ∃ edge ∈ clusters.edges, edge.source = source ∧ edge.target = target := by
  rw [hlists.joined_iff,
    hexact.invariant.exists_edge_iff hlists.graph_proper hsource htarget hne]

/-! ## Every run is a run of the plain procedure -/

theorem leafSets_ofGraph (graph : Graph ℚ) :
    (ofGraph graph).leafSets = Dense.singletons graph.nodeCount := by
  rw [leafSets, current_ofGraph]
  rfl

/-- A merge replaces the leaves of its two parts by their union. -/
theorem Invariant.leafSets_merge (hinv : Invariant graph clusters) {edge : Edge ℚ}
    (hsource : edge.source ∈ clusters.current) (htarget : edge.target ∈ clusters.current) :
    (clusters.merge edge).leafSets =
      insert (clusters.members edge.source ∪ clusters.members edge.target)
        ((clusters.leafSets.erase (clusters.members edge.source)).erase
          (clusters.members edge.target)) := by
  have hinjective := hinv.partitioned.members_injOn hinv.recorded
  have hkept : ((clusters.current.erase edge.source).erase edge.target).image
      (clusters.merge edge).members =
      ((clusters.current.erase edge.source).erase edge.target).image clusters.members := by
    refine Finset.image_congr fun id hid => members_merge_of_lt clusters edge ?_
    exact (mem_current.mp (Finset.mem_of_mem_erase (Finset.mem_of_mem_erase hid))).1
  rw [leafSets, current_merge hsource htarget, Finset.image_insert, members_merge_self, hkept,
    leafSets]
  congr 1
  ext set
  simp only [Finset.mem_image, Finset.mem_erase]
  constructor
  · rintro ⟨id, ⟨htargetNe, hsourceNe, hid⟩, rfl⟩
    exact ⟨fun heq => htargetNe (hinjective hid htarget heq),
      fun heq => hsourceNe (hinjective hid hsource heq), id, hid, rfl⟩
  · rintro ⟨htargetNe, hsourceNe, id, hid, rfl⟩
    exact ⟨id, ⟨fun heq => htargetNe (congrArg clusters.members heq),
      fun heq => hsourceNe (congrArg clusters.members heq), hid⟩, rfl⟩

/-- The merge along the heaviest edge is one that the plain procedure may make. -/
theorem Exact.step (hexact : Exact graph clusters) (hlists : graph.Lists pairs) {edge : Edge ℚ}
    (hedge : heaviest? clusters.edges = some edge) :
    Dense.Step pairs clusters.leafSets (clusters.members edge.source)
      (clusters.members edge.target) edge.weight := by
  have hinv := hexact.invariant
  have hlive := mem_of_heaviest? hedge
  have hne := (hinv.live.exists_mem hlive).1
  have hinjective := hinv.partitioned.members_injOn hinv.recorded
  obtain ⟨hsource, htarget⟩ := hinv.live.ends_mem hlists.graph_proper hinv.partitioned hlive
  constructor
  · exact Finset.mem_image_of_mem _ hsource
  · exact Finset.mem_image_of_mem _ htarget
  · exact fun heq => hne (hinjective hsource htarget heq)
  · exact (hexact.joined_iff hlists hsource htarget hne).mpr ⟨edge, hlive, rfl, rfl⟩
  · exact hexact.weight_eq_meanAffinity hlists hlive
  · intro first hfirst second hsecond hapart hjoined
    obtain ⟨left, hleft, rfl⟩ := Finset.mem_image.mp hfirst
    obtain ⟨right, hright, rfl⟩ := Finset.mem_image.mp hsecond
    have hids : left ≠ right := fun heq => hapart (congrArg clusters.members heq)
    obtain ⟨other, hother, rfl, rfl⟩ :=
      (hexact.joined_iff hlists hleft hright hids).mp hjoined
    rw [← hexact.weight_eq_meanAffinity hlists hother]
    exact weight_le_of_heaviest? hedge other hother

/-- What a run with exact weights has done is a run of the plain procedure. -/
theorem denseRun_of_mergeTimes (hlists : graph.Lists pairs) {count : Nat}
    (hafter : mergeTimes count (ofGraph graph) = .ok clusters) :
    Exact graph clusters ∧
      Dense.Run pairs graph.nodeCount clusters.leafMerges clusters.leafSets := by
  refine mergeTimes_induction (motive := fun clusters => Exact graph clusters ∧
    Dense.Run pairs graph.nodeCount clusters.leafMerges clusters.leafSets) ?_ ?_ hafter
  · rintro clusters edge ⟨hexact, hrun⟩ hedge
    have hinv := hexact.invariant
    have hlive := mem_of_heaviest? hedge
    obtain ⟨hsource, htarget⟩ := hinv.live.ends_mem hlists.graph_proper hinv.partitioned hlive
    refine ⟨hexact.merge hlists.graph_proper hlive, ?_⟩
    rw [hinv.recorded.leafMerges_merge edge (mem_current.mp hsource).1 (mem_current.mp htarget).1,
      hinv.leafSets_merge hsource htarget]
    exact hrun.merge (hexact.step hlists hedge)
  · refine ⟨exact_ofGraph hlists.graph_proper hlists.simple, ?_⟩
    rw [leafSets_ofGraph]
    exact Dense.Run.start

end Clusters

/-- With exact weights, clustering a graph that lists every pair once in each
direction is a run of the plain procedure, and it goes on until no pair joins
two sets. -/
theorem Graph.Lists.cluster_denseRun {graph : Graph ℚ} {pairs : List (Edge ℚ)}
    (hlists : graph.Lists pairs) :
    (2 * graph.nodeCount ≤ Linkage.idLimit → ∃ linkage, graph.cluster = .ok linkage) ∧
    ∀ linkage, graph.cluster = .ok linkage →
      Dense.Run pairs graph.nodeCount linkage.clusters.leafMerges linkage.clusters.leafSets ∧
      ∀ left ∈ linkage.clusters.leafSets, ∀ right ∈ linkage.clusters.leafSets,
        left ≠ right → ¬Dense.Joined pairs left right := by
  refine ⟨fun hfits => Graph.exists_cluster_iff.mpr ⟨hfits, hlists.graph_proper⟩, ?_⟩
  intro linkage hrun
  obtain ⟨hgraph, hlinkage⟩ := Graph.proper_of_cluster hrun
  obtain ⟨hexact, hdense⟩ := Clusters.denseRun_of_mergeTimes hlists hlinkage.2.2
  refine ⟨hdense, fun left hleft right hright hne hjoined => ?_⟩
  obtain ⟨source, hsource, rfl⟩ := Finset.mem_image.mp hleft
  obtain ⟨target, htarget, rfl⟩ := Finset.mem_image.mp hright
  have hids : source ≠ target := fun heq => hne (congrArg linkage.clusters.members heq)
  obtain ⟨edge, hedge, _⟩ := (hexact.joined_iff hlists hsource htarget hids).mp hjoined
  rw [hlinkage.edges_eq_nil hgraph] at hedge
  exact List.not_mem_nil hedge

/-- A node in the middle of a path joins its heavier neighbour first, and one node
stays alone. -/
theorem Graph.Lists.cluster_denseRun_path :
    let pairs : List (Edge ℚ) := [⟨0, 1, 3⟩, ⟨2, 1, 1⟩]
    let graph : Graph ℚ := ⟨4, [⟨1, 2, 1⟩, ⟨0, 1, 3⟩, ⟨1, 0, 3⟩, ⟨2, 1, 1⟩]⟩
    graph.Lists pairs ∧ ∃ linkage, graph.cluster = .ok linkage ∧
      linkage.clusters.leafMerges = [({0}, {1}, 3), ({0, 1}, {2}, 1 / 2)] ∧
      Dense.Run pairs 4 linkage.clusters.leafMerges linkage.clusters.leafSets := by
  intro pairs graph
  have hlists : graph.Lists pairs := ⟨by decide, by decide, by decide +kernel⟩
  have hresult : graph.cluster.toOption.map (fun linkage => linkage.clusters.leafMerges) =
      some [({0}, {1}, 3), ({0, 1}, {2}, 1 / 2)] := by
    decide +kernel
  obtain ⟨linkage, hrun⟩ := hlists.cluster_denseRun.1 (by decide +kernel)
  have hmerges : linkage.clusters.leafMerges = [({0}, {1}, 3), ({0, 1}, {2}, 1 / 2)] := by
    simpa [hrun, Except.toOption] using hresult
  exact ⟨hlists, linkage, hrun, hmerges, (hlists.cluster_denseRun.2 linkage hrun).1⟩

end AverageLinkage
