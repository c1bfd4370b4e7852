import Mathlib
import AverageLinkage.Linkage.Exact
import AverageLinkage.Proofs.Run

/-!
# Conservation of weight

With exact weights a merge loses nothing.  Count every live edge as often as
there are pairs of leaves of the two clusters that it joins: then the live edges
weigh as much as the edges of the graph between different clusters.  The law is
stated against an arbitrary test of the ends, which makes each step of a merge a
change of the test; the test that singles out two clusters gives the weight
between them.
-/

namespace AverageLinkage.Clusters

/-- The weight of edges, each counted with the value of `test` at its ends. -/
def weigh (test : Nat → Nat → ℚ) (edges : List (Edge ℚ)) : ℚ :=
  (edges.map fun edge => edge.weight * test edge.source edge.target).sum

@[simp]
theorem weigh_nil (test : Nat → Nat → ℚ) : weigh test [] = 0 := rfl

@[simp]
theorem weigh_cons (test : Nat → Nat → ℚ) (edge : Edge ℚ) (edges : List (Edge ℚ)) :
    weigh test (edge :: edges) =
      edge.weight * test edge.source edge.target + weigh test edges := by
  simp [weigh]

theorem weigh_congr {test other : Nat → Nat → ℚ} {edges : List (Edge ℚ)}
    (htest : ∀ edge ∈ edges, test edge.source edge.target = other edge.source edge.target) :
    weigh test edges = weigh other edges := by
  simp only [weigh]
  congr 1
  apply List.map_congr_left
  intro edge hedge
  rw [htest edge hedge]

/-- Edges may be sorted by their ends before they are weighed. -/
theorem weigh_eq_sum (test : Nat → Nat → ℚ) {edges : List (Edge ℚ)} {pairs : Finset (Nat × Nat)}
    (hpairs : ∀ edge ∈ edges, (edge.source, edge.target) ∈ pairs) :
    weigh test edges =
      ∑ pair ∈ pairs, (weightsBetween pair.1 pair.2 edges).sum * test pair.1 pair.2 := by
  induction edges with
  | nil => simp
  | cons edge rest ih =>
      have hrest := ih fun other hother => hpairs other (List.mem_cons_of_mem edge hother)
      have hcons : ∀ pair : Nat × Nat, (weightsBetween pair.1 pair.2 (edge :: rest)).sum =
          (if pair = (edge.source, edge.target) then edge.weight else 0) +
            (weightsBetween pair.1 pair.2 rest).sum := by
        intro pair
        rw [weightsBetween_cons]
        by_cases hpair : pair = (edge.source, edge.target)
        · simp [hpair]
        · have hleads : ¬edge.leads pair.1 pair.2 = true := by
            rw [Edge.leads_iff]
            rintro ⟨hsource, htarget⟩
            exact hpair (by rw [hsource, htarget])
          rw [if_neg hleads, if_neg hpair, zero_add]
      simp only [weigh_cons, hcons, add_mul, Finset.sum_add_distrib, ← hrest, ite_mul, zero_mul]
      rw [Finset.sum_ite_eq', if_pos (hpairs edge List.mem_cons_self)]

theorem weigh_filter (test : Nat → Nat → ℚ) (keep : Edge ℚ → Bool) (edges : List (Edge ℚ)) :
    weigh test (edges.filter keep) =
      (edges.map fun edge =>
        if keep edge then edge.weight * test edge.source edge.target else 0).sum := by
  induction edges with
  | nil => rfl
  | cons edge rest ih =>
      rw [List.filter_cons, List.map_cons, List.sum_cons, ← ih]
      split <;> simp

/-! ## A merge -/

/-- Joining edges keeps the sum of their weights. -/
theorem sum_bundle (weights : List ℚ) : (bundle weights).sum = weights.sum := by
  have hfold : ∀ (rest : List ℚ) (first : ℚ),
      rest.foldl (fun left right => left + right) first = first + rest.sum := by
    intro rest
    induction rest with
    | nil => simp
    | cons next rest ih =>
        intro first
        rw [List.foldl_cons, ih, List.sum_cons, add_assoc]
  cases weights with
  | nil => rfl
  | cons first rest =>
      rw [bundle, List.sum_singleton, List.sum_cons]
      exact hfold rest first

/-- Joining parallel edges changes no weight. -/
theorem weigh_bundleAt (test : Nat → Nat → ℚ) (node : Nat) (edges : List (Edge ℚ)) :
    weigh test (bundleAt node edges) = weigh test edges := by
  let ends := fun edge : Edge ℚ => (edge.source, edge.target)
  let pairs := ((bundleAt node edges).map ends).toFinset ∪ (edges.map ends).toFinset
  have hbundled : ∀ edge ∈ bundleAt node edges, ends edge ∈ pairs := by
    intro edge hedge
    exact Finset.mem_union_left _ (List.mem_toFinset.mpr (List.mem_map_of_mem hedge))
  have hedges : ∀ edge ∈ edges, ends edge ∈ pairs := by
    intro edge hedge
    exact Finset.mem_union_right _ (List.mem_toFinset.mpr (List.mem_map_of_mem hedge))
  rw [weigh_eq_sum test hbundled, weigh_eq_sum test hedges]
  apply Finset.sum_congr rfl
  intro pair _
  rw [weightsBetween_bundleAt]
  split
  · rw [sum_bundle]
  · rfl

/-- The share by which the weight of an edge is multiplied when its end is
moved. -/
def Fusion.shareOf (fusion : Fusion ℚ) (cluster : Nat) : ℚ :=
  if cluster = fusion.left then fusion.leftShare
  else if cluster = fusion.right then fusion.rightShare
  else 1

theorem Fusion.snd_move (fusion : Fusion ℚ) (cluster : Nat) (weight : ℚ) :
    (fusion.move cluster weight).2 = weight * fusion.shareOf cluster := by
  simp only [Fusion.move, Fusion.shareOf]
  split
  · rfl
  · split
    · rfl
    · simp

theorem Fusion.weight_redirect (fusion : Fusion ℚ) (edge : Edge ℚ) :
    (fusion.redirect edge).weight =
      edge.weight * (fusion.shareOf edge.source * fusion.shareOf edge.target) := by
  simp only [Fusion.redirect]
  rw [Fusion.snd_move, Fusion.snd_move, mul_assoc]

/-- What a merge leaves weighs as much as the edges before it under the test of
their new ends, reduced by the shares. -/
theorem weigh_apply (test : Nat → Nat → ℚ) (fusion : Fusion ℚ) (edges : List (Edge ℚ)) :
    weigh test (fusion.apply edges) =
      (edges.map fun edge => if edge.joins fusion.left fusion.right then 0
        else edge.weight * (fusion.shareOf edge.source * fusion.shareOf edge.target *
          test (heir fusion.left fusion.right fusion.node edge.source)
            (heir fusion.left fusion.right fusion.node edge.target))).sum := by
  have hmap : ∀ others : List (Edge ℚ), weigh test (others.map fusion.redirect) =
      weigh (fun source target => fusion.shareOf source * fusion.shareOf target *
        test (heir fusion.left fusion.right fusion.node source)
          (heir fusion.left fusion.right fusion.node target)) others := by
    intro others
    simp only [weigh, List.map_map]
    congr 1
    apply List.map_congr_left
    intro edge _
    simp only [Function.comp_apply, Fusion.weight_redirect, Fusion.source_redirect,
      Fusion.target_redirect]
    ring
  rw [Fusion.apply, weigh_bundleAt, hmap, weigh_filter]
  congr 1
  apply List.map_congr_left
  intro edge _
  cases edge.joins fusion.left fusion.right <;> simp

/-- The weight after a merge, edge by edge: those between the two parts drop out, and the others
count with the shares of their ends. -/
theorem weigh_edges_merge (test : Nat → Nat → ℚ) (clusters : Clusters ℚ) (edge : Edge ℚ) :
    weigh test (clusters.merge edge).edges =
      (clusters.edges.map fun other => if other.joins edge.source edge.target then 0
        else other.weight * ((clusters.fusion edge).shareOf other.source *
          (clusters.fusion edge).shareOf other.target *
          test (heir edge.source edge.target clusters.parent.size other.source)
            (heir edge.source edge.target clusters.parent.size other.target))).sum :=
  weigh_apply test (clusters.fusion edge) clusters.edges

/-! ## The law -/

/-- The live edges, counted with the populations of their ends, weigh as much as
the edges of the graph between different clusters. -/
def Conserved (graph : Graph ℚ) (clusters : Clusters ℚ) : Prop :=
  ∀ test : Nat → Nat → ℚ, weigh (fun source target =>
      clusters.populationOf source * clusters.populationOf target * test source target)
        clusters.edges =
    weigh (fun source target => if clusters.owner source = clusters.owner target then 0
      else test (clusters.owner source) (clusters.owner target)) graph.edges

/-- At the start every population is one. -/
theorem conserved_ofGraph {graph : Graph ℚ} (hgraph : graph.Proper) :
    Conserved graph (ofGraph graph) := by
  intro test
  have hpopulation : ∀ id < graph.nodeCount, (ofGraph graph).populationOf id = 1 := by
    intro id hid
    simp [populationOf, ofGraph, hid]
  apply weigh_congr
  intro edge hedge
  obtain ⟨hne, hsource, htarget⟩ := hgraph edge hedge
  simp [hpopulation _ hsource, hpopulation _ htarget, hne]

/-- The share of a part is what makes its population out of that of the whole. -/
theorem shareOf_mul_populationOf {clusters : Clusters ℚ} {edge : Edge ℚ} {id : Nat}
    (hsize : clusters.population.size = clusters.parent.size)
    (hid : id ≠ clusters.parent.size)
    (hpositive : 0 < clusters.populationOf edge.source) :
    (clusters.fusion edge).shareOf id * ((clusters.merge edge).populationOf
      (heir edge.source edge.target clusters.parent.size id) : ℚ) = clusters.populationOf id := by
  have hwhole : (clusters.populationOf edge.source + clusters.populationOf edge.target : ℚ) ≠
      0 := by
    positivity
  have hleft : (clusters.fusion edge).leftShare = clusters.populationOf edge.source /
      (clusters.populationOf edge.source + clusters.populationOf edge.target : ℚ) := by
    simp [fusion]
  have hright : (clusters.fusion edge).rightShare = 1 - clusters.populationOf edge.source /
      (clusters.populationOf edge.source + clusters.populationOf edge.target : ℚ) := by
    rw [← hleft]
    rfl
  have hnode : ((clusters.merge edge).populationOf clusters.parent.size : ℚ) =
      clusters.populationOf edge.source + clusters.populationOf edge.target := by
    rw [populationOf_merge, if_pos hsize.symm, Nat.cast_add]
  rw [Fusion.shareOf]
  split
  · next hsource =>
      obtain rfl : id = edge.source := hsource
      rw [heir_left, hnode, hleft]
      field_simp
  · next hsource =>
      split
      · next htarget =>
          obtain rfl : id = edge.target := htarget
          rw [heir_right, hnode, hright]
          field_simp
          ring
      · next htarget =>
          have hplace : heir edge.source edge.target clusters.parent.size id = id :=
            heir_of_ne hsource htarget
          rw [hplace, populationOf_merge, hsize, if_neg hid, one_mul]

/-- What the live edges weigh after a merge, in terms of those before it: an edge
between the two parts counts no more, and every other one in the new places of its
ends. -/
theorem Invariant.weigh_merge {graph : Graph ℚ} {clusters : Clusters ℚ}
    (hinv : Invariant graph clusters) (hgraph : graph.Proper) {edge : Edge ℚ}
    (hedge : edge ∈ clusters.edges) (test : Nat → Nat → ℚ) {place : Nat → Nat}
    (hplace : place = heir edge.source edge.target clusters.parent.size) :
    weigh (fun source target => (clusters.merge edge).populationOf source *
        (clusters.merge edge).populationOf target * test source target)
        (clusters.merge edge).edges =
      weigh (fun source target => clusters.populationOf source * clusters.populationOf target *
        if place source = place target then 0 else test (place source) (place target))
        clusters.edges := by
  have hlt : ∀ other ∈ clusters.edges, other.source < clusters.parent.size ∧
      other.target < clusters.parent.size :=
    fun other hother => hinv.live.ends_lt hgraph hinv.partitioned hother
  have hpositive : 0 < clusters.populationOf edge.source :=
    hinv.partitioned.populationOf_pos hinv.recorded (hlt edge hedge).1
  have hshare : ∀ id < clusters.parent.size, (clusters.fusion edge).shareOf id *
      ((clusters.merge edge).populationOf (place id) : ℚ) = clusters.populationOf id := by
    intro id hid
    rw [hplace]
    exact shareOf_mul_populationOf hinv.recorded.size_population hid.ne hpositive
  rw [weigh_edges_merge, weigh]
  congr 1
  apply List.map_congr_left
  intro other hother
  obtain ⟨hsource, htarget⟩ := hlt other hother
  have hne := (hinv.live.exists_mem hother).1
  rw [← hshare _ hsource, ← hshare _ htarget, hplace]
  by_cases hjoins : other.joins edge.source edge.target = true
  · rw [if_pos hjoins, if_pos (heir_eq_of_joins hjoins)]
    ring
  · rw [if_neg hjoins,
      if_neg (heir_ne_of_not_joins hne hsource.ne htarget.ne (by simpa using hjoins))]
    ring

/-- A share times the population of the new cluster is the population of the part, so a merge
conserves the weight. -/
theorem Conserved.merge {graph : Graph ℚ} {clusters : Clusters ℚ}
    (hconserved : Conserved graph clusters) (hinv : Invariant graph clusters)
    (hgraph : graph.Proper) {edge : Edge ℚ} (hedge : edge ∈ clusters.edges) :
    Conserved graph (clusters.merge edge) := by
  intro test
  let place := heir edge.source edge.target clusters.parent.size
  calc weigh (fun source target => (clusters.merge edge).populationOf source *
          (clusters.merge edge).populationOf target * test source target)
          (clusters.merge edge).edges
      = weigh (fun source target => clusters.populationOf source *
          clusters.populationOf target *
            if place source = place target then 0 else test (place source) (place target))
          clusters.edges := hinv.weigh_merge hgraph hedge test rfl
    _ = weigh (fun source target => if clusters.owner source = clusters.owner target then 0
          else if place (clusters.owner source) = place (clusters.owner target) then 0
          else test (place (clusters.owner source)) (place (clusters.owner target)))
          graph.edges := hconserved _
    _ = weigh (fun source target =>
          if (clusters.merge edge).owner source = (clusters.merge edge).owner target then 0
          else test ((clusters.merge edge).owner source) ((clusters.merge edge).owner target))
          graph.edges := by
        apply weigh_congr
        intro other _
        simp only [owner_merge]
        by_cases howner : clusters.owner other.source = clusters.owner other.target
        · simp [howner]
        · rw [if_neg howner]

/-- The weight between two current clusters, counted with their populations, is
that of the edges of the graph from the leaves of one to the leaves of the
other. -/
theorem Conserved.sum_weightsBetween {graph : Graph ℚ} {clusters : Clusters ℚ}
    (hconserved : Conserved graph clusters) (hinv : Invariant graph clusters)
    (hgraph : graph.Proper) {source target : Nat} (hsource : source ∈ clusters.current)
    (htarget : target ∈ clusters.current) (hne : source ≠ target) :
    (weightsBetween source target clusters.edges).sum * clusters.populationOf source *
        clusters.populationOf target =
      weigh (fun left right => if left ∈ clusters.members source ∧ right ∈ clusters.members target
        then 1 else 0) graph.edges := by
  have hlaw := hconserved fun left right => if left = source ∧ right = target then 1 else 0
  have hedges : weigh (fun left right => clusters.populationOf left *
      clusters.populationOf right * if left = source ∧ right = target then 1 else 0)
        clusters.edges =
      (weightsBetween source target clusters.edges).sum * clusters.populationOf source *
        clusters.populationOf target := by
    generalize clusters.edges = edges
    induction edges with
    | nil => simp
    | cons edge rest ih =>
        rw [weigh_cons, ih, weightsBetween_cons]
        by_cases hleads : edge.source = source ∧ edge.target = target
        · rw [if_pos hleads, if_pos (Edge.leads_iff.mpr hleads), List.sum_cons, hleads.1,
            hleads.2]
          ring
        · rw [if_neg hleads, if_neg (Edge.leads_iff.not.mpr hleads)]
          ring
  rw [← hedges, hlaw]
  apply weigh_congr
  intro edge hedge
  obtain ⟨_, hsourceLt, htargetLt⟩ := hgraph edge hedge
  simp only [hinv.partitioned.mem_members_iff _ hsource, hinv.partitioned.mem_members_iff _ htarget,
    hsourceLt, htargetLt, true_and]
  by_cases hends : clusters.owner edge.source = source ∧ clusters.owner edge.target = target
  · rw [hends.1, hends.2, if_neg hne]
  · rw [if_neg hends, ite_self]

end AverageLinkage.Clusters
