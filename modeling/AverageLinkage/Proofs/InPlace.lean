import Mathlib
import AverageLinkage.Proofs.SlotRuns

/-!
# Merges in place

A merge in place never reaches outside of its arrays, and it leaves in the slots what the
plain definition of a merge says.  Apart from the slots it changes the entries of the new
cluster and the parents of the two parts.  So an arena that shows the state of a clustering
shows the next state after the merge.
-/

namespace AverageLinkage

variable {W : Type} [Weight W]

namespace Arena

open Clusters

/-! ## The slots -/

omit [Weight W] in
theorem reduceOption_map_filter (test : Edge W → Bool) (slots : List (Option (Edge W))) :
    (slots.map (·.filter test)).reduceOption = slots.reduceOption.filter test := by
  simp only [List.reduceOption, List.filterMap_map, List.filter_filterMap]
  rfl

omit [Weight W] in
theorem filter_isSome_eq (slots : List (Option (Edge W))) :
    slots.filter Option.isSome = slots.reduceOption.map some := by
  rw [List.reduceOption, List.map_filterMap, ← List.filterMap_eq_filter]
  apply List.filterMap_congr
  intro slot _
  cases slot <;> rfl

/-- After a merge the slots hold the edges that are left, one after another. -/
theorem settle?_eq_apply (fusion : Fusion W) (slots : List (Option (Edge W))) :
    settle? fusion slots.toArray =
      some ((fusion.apply slots.reduceOption).map some).toArray := by
  have hmoved : redirect fusion (clear fusion.left fusion.right slots.toArray) =
      ((slots.map (·.filter fun edge => !edge.joins fusion.left fusion.right)).map
        (·.map fusion.redirect)).toArray := by
    simp [redirect, clear]
  have htouches : (fun edge : Edge W => edge.near .source == fusion.node ||
      edge.near .target == fusion.node) = (·.touches fusion.node) := rfl
  have hsource : OfBundles fun edge : Edge W => edge.near .source == fusion.node := by
    intro edge other hparallel
    simp only [((parallel_iff .source).mp hparallel).1]
  rw [settle?, hmoved, joinAt?_eq_joinSlots, Option.bind_eq_bind, Option.bind_some,
    joinAt?_eq_joinSlots, Option.bind_some, joinSlots_joinSlots hsource (fun _ => rfl), htouches]
  simp only [Option.pure_def, List.filter_toArray, filter_isSome_eq, reduceOption_joinSlots_touches,
    List.reduceOption_map, reduceOption_map_filter, Fusion.apply]

/-! ## The other arrays -/

/-- An arena with an edge in every slot, in which merge number `step` can be made.  The new
cluster has its entries in the arrays, no edge touches it, and the populations of two clusters
with an edge between them add up to a word. -/
structure Ready (arena : Arena W) (step : Nat) (edges : List (Edge W)) : Prop where
  slots_eq : arena.slots = (edges.map some).toArray
  size_population : arena.population.size = arena.parent.size
  size_height : arena.height.size = arena.parent.size
  node_lt : arena.leafCount + step < arena.parent.size
  ends_ne : ∀ edge ∈ edges, edge.source ≠ edge.target
  ends_lt : ∀ edge ∈ edges, edge.source < arena.parent.size ∧ edge.target < arena.parent.size
  ends_fresh : ∀ edge ∈ edges, edge.source ≠ arena.leafCount + step ∧
    edge.target ≠ arena.leafCount + step
  sum_le : ∀ edge ∈ edges, arena.population.getD edge.source 0 +
    arena.population.getD edge.target 0 ≤ Natural.wordLimit

def fusion (arena : Arena W) (step : Nat) (edge : Edge W) : Fusion W :=
  let part := arena.population.getD edge.source 0
  let whole := part + arena.population.getD edge.target 0
  { left := edge.source
    right := edge.target
    node := arena.leafCount + step
    leftShare := Weight.share part whole
    rightShare := 1 - Weight.share part whole }

theorem heaviest?_eq {arena : Arena W} {edges : List (Edge W)}
    (hslots : arena.slots = (edges.map some).toArray) :
    arena.heaviest? = Clusters.heaviest? edges := by
  have hlive : (edges.map some).filterMap id = edges := by simp
  rw [Arena.heaviest?, hslots, List.toList_toArray, hlive]

theorem write?_eq {α : Type} {entries : Array α} {index : Nat} (hindex : index < entries.size)
    (value : α) :
    DisjointSets.write? entries index value = some (entries.setIfInBounds index value) :=
  if_pos hindex

/-- No access of a merge falls outside of an array. -/
theorem Ready.fuse?_eq {arena : Arena W} {step : Nat} {edges : List (Edge W)}
    (hready : arena.Ready step edges) {edge : Edge W} (hedge : edge ∈ edges) :
    arena.fuse? step edge = some
      { arena with
        slots := (((arena.fusion step edge).apply edges).map some).toArray
        population := arena.population.setIfInBounds (arena.leafCount + step)
          (arena.population.getD edge.source 0 + arena.population.getD edge.target 0)
        height := arena.height.setIfInBounds (arena.leafCount + step) edge.weight
        parent := (arena.parent.setIfInBounds edge.source (arena.leafCount + step)).setIfInBounds
          edge.target (arena.leafCount + step) } := by
  have hnode := hready.node_lt
  obtain ⟨hsource, htarget⟩ := hready.ends_lt edge hedge
  have hfresh := (hready.ends_fresh edge hedge).1
  have hread : ∀ id < arena.parent.size,
      arena.population[id]? = some (arena.population.getD id 0) := by
    intro id hid
    simp [hready.size_population, hid]
  have hsum : sum? (arena.population.getD edge.source 0) (arena.population.getD edge.target 0) =
      some (arena.population.getD edge.source 0 + arena.population.getD edge.target 0) :=
    if_pos (hready.sum_le edge hedge)
  have hlive : (edges.map some).reduceOption = edges := by simp [List.reduceOption]
  have hheight := write?_eq (hready.size_height.symm ▸ hnode) edge.weight
  have hsources := write?_eq hsource (arena.leafCount + step)
  have htargets := write?_eq (show edge.target < (arena.parent.setIfInBounds edge.source
    (arena.leafCount + step)).size by simpa using htarget) (arena.leafCount + step)
  have hwhole := write?_eq (hready.size_population.symm ▸ hnode)
    (arena.population.getD edge.source 0 + arena.population.getD edge.target 0)
  -- The share is read after the write, which is to another entry.
  have hpart : (arena.population.setIfInBounds (arena.leafCount + step)
      (arena.population.getD edge.source 0 + arena.population.getD edge.target 0))[edge.source]? =
        some (arena.population.getD edge.source 0) := by
    rw [Array.getElem?_setIfInBounds_ne (Ne.symm hfresh), hread _ hsource]
  have hnew : (arena.population.setIfInBounds (arena.leafCount + step)
      (arena.population.getD edge.source 0 +
        arena.population.getD edge.target 0))[arena.leafCount + step]? =
        some (arena.population.getD edge.source 0 + arena.population.getD edge.target 0) :=
    Array.getElem?_setIfInBounds_self_of_lt (hready.size_population.symm ▸ hnode)
  simp only [fuse?, hheight, hsources, htargets, hread _ hsource, hread _ htarget, hsum, hwhole,
    hpart, hnew, hready.slots_eq, settle?_eq_apply, Option.bind_eq_bind, Option.bind_some,
    Option.pure_def, hlive, fusion]

/-- What merge number `step` along an edge leaves of an arena with these edges.  The slots
are all filled.  Entries change only at the new cluster, and for the parents at its parts. -/
structure Becomes (arena : Arena W) (step : Nat) (edge : Edge W) (edges : List (Edge W))
    (after : Arena W) : Prop where
  leafCount_eq : after.leafCount = arena.leafCount
  slots_eq : after.slots = (((arena.fusion step edge).plain edges).map some).toArray
  size_parent : after.parent.size = arena.parent.size
  size_population : after.population.size = arena.population.size
  size_height : after.height.size = arena.height.size
  parent_eq : ∀ id, after.parent[id]? =
    if id = edge.source ∨ id = edge.target then some (arena.leafCount + step)
    else arena.parent[id]?
  population_eq : ∀ id, after.population[id]? =
    if id = arena.leafCount + step then
      some (arena.population.getD edge.source 0 + arena.population.getD edge.target 0)
    else arena.population[id]?
  height_eq : ∀ id, after.height[id]? =
    if id = arena.leafCount + step then some edge.weight else arena.height[id]?

/-- In an arena that is ready no access of a merge fails. -/
theorem Ready.exists_fuse? {arena : Arena W} {step : Nat} {edges : List (Edge W)}
    (hready : arena.Ready step edges) {edge : Edge W} (hedge : edge ∈ edges) :
    ∃ after, arena.fuse? step edge = some after ∧ arena.Becomes step edge edges after := by
  have hnode := hready.node_lt
  obtain ⟨hsource, htarget⟩ := hready.ends_lt edge hedge
  refine ⟨_, hready.fuse?_eq hedge, ?_⟩
  constructor
  case leafCount_eq => rfl
  case slots_eq => rw [Fusion.apply_eq_plain hready.ends_ne]
  case parent_eq =>
    intro id
    simp only [Array.getElem?_setIfInBounds, Array.size_setIfInBounds]
    grind
  case population_eq =>
    intro id
    simp only [Array.getElem?_setIfInBounds, hready.size_population]
    grind
  case height_eq =>
    intro id
    simp only [Array.getElem?_setIfInBounds, hready.size_height]
    grind
  all_goals simp

/-- A merge is made along the heaviest edge. -/
theorem Ready.exists_merge? {arena : Arena W} {step : Nat} {edges : List (Edge W)}
    (hready : arena.Ready step edges) {edge : Edge W}
    (hchosen : Clusters.heaviest? edges = some edge) :
    ∃ after, arena.merge? step = some
        (some { node := arena.leafCount + step, left := edge.source, right := edge.target
                height := edge.weight }, after) ∧
      arena.Becomes step edge edges after := by
  obtain ⟨after, hfuse, hafter⟩ := hready.exists_fuse? (mem_of_heaviest? hchosen)
  refine ⟨after, ?_, hafter⟩
  rw [merge?, heaviest?_eq hready.slots_eq, hchosen]
  simp only [hfuse, Option.map_some]

/-! ## Arenas that show a clustering -/

/-- After `step` merges the arena holds what the state of a clustering says.  The entries of
clusters not yet formed are still as at the start. -/
structure Shows (arena : Arena W) (step : Nat) (clusters : Clusters W) : Prop where
  size_parent : clusters.parent.size = arena.leafCount + step
  size_merges : clusters.merges.size = step
  slots_eq : arena.slots = (clusters.edges.map some).toArray
  ends_lt : ∀ edge ∈ clusters.edges,
    edge.source < clusters.parent.size ∧ edge.target < clusters.parent.size
  parent_eq : ∀ id < clusters.parent.size, arena.parent[id]? = clusters.parent[id]?
  parent_free : ∀ id < arena.parent.size, clusters.parent.size ≤ id →
    arena.parent[id]? = some id
  size_population : clusters.population.size = clusters.parent.size
  population_eq : ∀ id < clusters.parent.size, arena.population[id]? = clusters.population[id]?
  height_eq : ∀ index merge, clusters.merges[index]? = some merge →
    arena.height[arena.leafCount + index]? = some merge.height

omit [Weight W] in
theorem Shows.population_getD {arena : Arena W} {step : Nat} {clusters : Clusters W}
    (hshows : arena.Shows step clusters) {id : Nat} (hid : id < clusters.parent.size) :
    arena.population.getD id 0 = clusters.populationOf id := by
  rw [populationOf, Array.getD_eq_getD_getElem?, Array.getD_eq_getD_getElem?,
    hshows.population_eq id hid]

/-- The shares that the arena computes are those of the clustering it shows. -/
theorem Shows.fusion_eq {arena : Arena W} {step : Nat} {clusters : Clusters W}
    (hshows : arena.Shows step clusters) {edge : Edge W} (hedge : edge ∈ clusters.edges) :
    arena.fusion step edge = clusters.fusion edge := by
  obtain ⟨hsource, htarget⟩ := hshows.ends_lt edge hedge
  simp only [fusion, Clusters.fusion, hshows.population_getD hsource,
    hshows.population_getD htarget, hshows.size_parent]

/-- A merge leaves no end beyond the new cluster. -/
theorem Shows.ends_lt_merge {arena : Arena W} {step : Nat} {clusters : Clusters W}
    (hshows : arena.Shows step clusters) (edge : Edge W) :
    ∀ other ∈ (clusters.merge edge).edges,
      other.source < clusters.parent.size + 1 ∧ other.target < clusters.parent.size + 1 := by
  intro other hother
  obtain ⟨before, hbefore, _, hsource, htarget⟩ :=
    exists_mem_apply_iff.mp ⟨other, hother, rfl, rfl⟩
  obtain ⟨hsourceLt, htargetLt⟩ := hshows.ends_lt before hbefore
  rw [← hsource, ← htarget, node_fusion]
  simp only [heir]
  grind

/-- After the merge the arena shows the next state of the clustering. -/
theorem Shows.merge {arena after : Arena W} {step : Nat} {clusters : Clusters W}
    (hshows : arena.Shows step clusters)
    (hends : ∀ edge ∈ clusters.edges, edge.source ≠ edge.target)
    (hnode : arena.leafCount + step < arena.parent.size) {edge : Edge W}
    (hedge : edge ∈ clusters.edges) (hafter : arena.Becomes step edge clusters.edges after) :
    after.Shows (step + 1) (clusters.merge edge) := by
  obtain ⟨hsource, htarget⟩ := hshows.ends_lt edge hedge
  have hsize := hshows.size_parent
  constructor
  case size_parent => rw [size_parent_merge, hsize, hafter.leafCount_eq, Nat.add_assoc]
  case size_merges => rw [size_merges_merge, hshows.size_merges]
  case slots_eq =>
    rw [hafter.slots_eq, hshows.fusion_eq hedge, edges_merge, Fusion.apply_eq_plain hends]
  case ends_lt =>
    rw [size_parent_merge]
    exact hshows.ends_lt_merge edge
  case parent_eq =>
    intro id hid
    rw [size_parent_merge] at hid
    have hold := hshows.parent_eq id
    have hfree := hshows.parent_free id
    simp only [hafter.parent_eq, Clusters.merge, Array.getElem?_push,
      Array.getElem?_setIfInBounds, Array.size_setIfInBounds]
    grind
  case parent_free =>
    intro id hid hfree
    rw [size_parent_merge] at hfree
    rw [hafter.size_parent] at hid
    rw [hafter.parent_eq, if_neg (by omega), hshows.parent_free id hid (by omega)]
  case size_population => rw [size_population_merge, size_parent_merge, hshows.size_population]
  case population_eq =>
    intro id hid
    rw [size_parent_merge] at hid
    rw [hafter.population_eq, ← hsize, Clusters.merge, Array.getElem?_push,
      hshows.size_population, populationOf, populationOf]
    split
    · rw [Array.getD_eq_getD_getElem?, Array.getD_eq_getD_getElem?,
        hshows.population_eq _ hsource, hshows.population_eq _ htarget,
        ← Array.getD_eq_getD_getElem?, ← Array.getD_eq_getD_getElem?]
    · exact hshows.population_eq id (by omega)
  case height_eq =>
    intro index merge hmerge
    rw [Clusters.merge, Array.getElem?_push, hshows.size_merges] at hmerge
    rw [hafter.height_eq, hafter.leafCount_eq]
    split at hmerge
    · next hlast =>
        obtain rfl := Option.some.inj hmerge
        rw [if_pos (by omega)]
    · next hearlier => rw [if_neg (by omega), hshows.height_eq index merge hmerge]

/-! ## Runs -/

/-- The arrays keep the size they have at the start. -/
structure Sized (nodeCount : Nat) (arena : Arena W) : Prop where
  leafCount_eq : arena.leafCount = nodeCount
  size_parent : arena.parent.size = 2 * nodeCount
  size_population : arena.population.size = 2 * nodeCount
  size_height : arena.height.size = 2 * nodeCount

omit [Weight W] in
theorem sized_ofGraph (unmerged : W) (graph : Graph W) :
    (ofGraph unmerged graph).Sized graph.nodeCount := by
  constructor <;> simp [ofGraph]

theorem Sized.merge {nodeCount step : Nat} {arena after : Arena W} {edge : Edge W}
    {edges : List (Edge W)} (hsized : arena.Sized nodeCount)
    (hafter : arena.Becomes step edge edges after) : after.Sized nodeCount where
  leafCount_eq := hafter.leafCount_eq.trans hsized.leafCount_eq
  size_parent := hafter.size_parent.trans hsized.size_parent
  size_population := hafter.size_population.trans hsized.size_population
  size_height := hafter.size_height.trans hsized.size_height

/-- Populations and heights of clusters not yet formed, and heights of the items, are as at the
start. -/
structure Untouched (unmerged : W) (step : Nat) (arena : Arena W) : Prop where
  population_eq : ∀ id < arena.population.size, arena.leafCount + step ≤ id →
    arena.population[id]? = some 1
  height_eq : ∀ id < arena.height.size, id < arena.leafCount ∨ arena.leafCount + step ≤ id →
    arena.height[id]? = some unmerged

omit [Weight W] in
theorem untouched_ofGraph (unmerged : W) (graph : Graph W) :
    (ofGraph unmerged graph).Untouched unmerged 0 := by
  constructor <;> simp +contextual [ofGraph]

theorem Untouched.merge {unmerged : W} {step : Nat} {arena after : Arena W} {edge : Edge W}
    {edges : List (Edge W)} (huntouched : arena.Untouched unmerged step)
    (hafter : arena.Becomes step edge edges after) : after.Untouched unmerged (step + 1) where
  population_eq := by
    intro id hid hfree
    rw [hafter.size_population] at hid
    rw [hafter.leafCount_eq] at hfree
    rw [hafter.population_eq, if_neg (by omega), huntouched.population_eq id hid (by omega)]
  height_eq := by
    intro id hid hfree
    rw [hafter.size_height] at hid
    rw [hafter.leafCount_eq] at hfree
    rw [hafter.height_eq, if_neg (by omega), huntouched.height_eq id hid (by omega)]

omit [Weight W] in
/-- At the start the arena shows the graph. -/
theorem shows_ofGraph (unmerged : W) {graph : Graph W} (hgraph : graph.Proper) :
    (ofGraph unmerged graph).Shows 0 (Clusters.ofGraph graph) := by
  constructor
  case slots_eq => rfl
  case ends_lt =>
    intro edge hedge
    rw [size_parent_ofGraph]
    exact (hgraph edge hedge).2
  case parent_eq | population_eq =>
    intro id hid
    rw [size_parent_ofGraph] at hid
    have hroom : id < 2 * graph.nodeCount := by omega
    simp [ofGraph, Clusters.ofGraph, hid, hroom]
  all_goals simp +contextual [ofGraph, Clusters.ofGraph]

omit [Weight W] in
/-- In a run there is room for the next merge. -/
theorem Shows.ready {arena : Arena W} {step : Nat} {clusters : Clusters W} {graph : Graph W}
    (hshows : arena.Shows step clusters) (hsized : arena.Sized graph.nodeCount)
    (hgraph : graph.Proper) (hwords : graph.nodeCount ≤ Natural.wordLimit)
    (hinv : Invariant graph clusters) {edge : Edge W} (hedge : edge ∈ clusters.edges) :
    arena.Ready step clusters.edges := by
  have hsize := hshows.size_parent
  have hroom : arena.leafCount + step < arena.parent.size := by
    -- A live edge has current ends, so not all clusters have been merged.
    have hcurrent := (hinv.live.ends_mem hgraph hinv.partitioned hedge).1
    have hpos := Finset.card_pos.mpr ⟨_, hcurrent⟩
    have hcard := hinv.partitioned.card_current
    rw [hshows.size_merges] at hcard
    rw [hsized.leafCount_eq, hsized.size_parent]
    omega
  constructor
  case slots_eq => exact hshows.slots_eq
  case size_population => rw [hsized.size_population, hsized.size_parent]
  case size_height => rw [hsized.size_height, hsized.size_parent]
  case node_lt => exact hroom
  case ends_ne => exact fun other hother => (hinv.live.exists_mem hother).1
  case ends_lt =>
    intro other hother
    obtain ⟨hsource, htarget⟩ := hshows.ends_lt other hother
    omega
  case ends_fresh =>
    intro other hother
    obtain ⟨hsource, htarget⟩ := hshows.ends_lt other hother
    omega
  case sum_le =>
    intro other hother
    obtain ⟨hsource, htarget⟩ := hshows.ends_lt other hother
    obtain ⟨hleft, hright⟩ := hinv.live.ends_mem hgraph hinv.partitioned hother
    rw [hshows.population_getD hsource, hshows.population_getD htarget]
    exact (hinv.partitioned.populationOf_add_le hleft hright
      (hinv.live.exists_mem hother).1).trans hwords

theorem mergeTimes?_succ (count : Nat) (arena : Arena W) :
    arena.mergeTimes? (count + 1) =
      (arena.mergeTimes? count).bind fun after => (after.merge? count).map Prod.snd := by
  simp [mergeTimes?, List.range_succ]

/-- After any number of merges the arena shows the state to which they lead. -/
theorem exists_mergeTimes? (unmerged : W) {graph : Graph W} (hgraph : graph.Proper)
    (hwords : graph.nodeCount ≤ Natural.wordLimit) {clusters : Clusters W}
    (hreached : Reached (Clusters.ofGraph graph) clusters) :
    ∃ arena, (ofGraph unmerged graph).mergeTimes? clusters.merges.size = some arena ∧
      arena.Sized graph.nodeCount ∧ arena.Shows clusters.merges.size clusters ∧
      arena.Untouched unmerged clusters.merges.size := by
  refine Reached.induction
    (motive := fun clusters => ∃ arena,
      (ofGraph unmerged graph).mergeTimes? clusters.merges.size = some arena ∧
        arena.Sized graph.nodeCount ∧ arena.Shows clusters.merges.size clusters ∧
        arena.Untouched unmerged clusters.merges.size) ?_ ?_ hreached
  · intro clusters edge hreached hstate hedge
    obtain ⟨arena, hrun, hsized, hshows, huntouched⟩ := hstate
    have hmem := mem_of_heaviest? hedge
    have hready := hshows.ready hsized hgraph hwords (hreached.invariant hgraph) hmem
    obtain ⟨after, hmerge, hafter⟩ := hready.exists_merge? hedge
    refine ⟨after, ?_, hsized.merge hafter, ?_, ?_⟩
    · rw [size_merges_merge, mergeTimes?_succ, hrun, Option.bind_some, hmerge, Option.map_some]
    · rw [size_merges_merge]
      exact hshows.merge hready.ends_ne hready.node_lt hmem hafter
    · rw [size_merges_merge]
      exact huntouched.merge hafter
  · exact ⟨_, rfl, sized_ofGraph unmerged graph, shows_ofGraph unmerged hgraph,
      untouched_ofGraph unmerged graph⟩

/-! ## One merge -/

/-- One merge in place.  It stays inside of its arrays and leaves the edges of the plain
definition.  An arena that shows a clustering shows its next state. -/
theorem merge?_eq_plain {arena : Arena W} {step : Nat} {edges : List (Edge W)}
    (hready : arena.Ready step edges) {edge : Edge W} (hchosen : arena.heaviest? = some edge) :
    ∃ after, arena.merge? step = some
        (some { node := arena.leafCount + step, left := edge.source, right := edge.target
                height := edge.weight }, after) ∧
      arena.Becomes step edge edges after ∧
      ∀ clusters, arena.Shows step clusters →
        clusters.step? = some (clusters.merge edge) ∧
        (clusters.merge edge).edges = (arena.fusion step edge).plain edges ∧
        after.Shows (step + 1) (clusters.merge edge) := by
  rw [heaviest?_eq hready.slots_eq] at hchosen
  obtain ⟨after, hmerge, hafter⟩ := hready.exists_merge? hchosen
  refine ⟨after, hmerge, hafter, ?_⟩
  intro clusters hshows
  have hedges : edges = clusters.edges := by
    have hslots := hready.slots_eq.symm.trans hshows.slots_eq
    exact List.map_injective_iff.mpr (Option.some_injective _) (by simpa using hslots)
  subst hedges
  have hedge := mem_of_heaviest? hchosen
  refine ⟨?_, ?_, hshows.merge hready.ends_ne hready.node_lt hedge hafter⟩
  · rw [step?, hchosen, Option.map_some]
  · rw [edges_merge, hshows.fusion_eq hedge, Fusion.apply_eq_plain hready.ends_ne]

/-- Items `1` and `2` are joined in both directions, and item `0` with each of them. -/
def braided : Graph Float :=
  { nodeCount := 4
    edges := [{ source := 0, target := 1, weight := 3 }, { source := 1, target := 2, weight := 1 },
      { source := 2, target := 3, weight := 1 }, { source := 0, target := 2, weight := 2 },
      { source := 1, target := 0, weight := 1 }, { source := 2, target := 1, weight := 4 }] }

/-- Both edges between items `1` and `2` go, and the two edges from item `0` become one. -/
theorem merge?_eq_plain_braided :
    (ofGraph 0 braided).Ready 0 braided.edges ∧
      (ofGraph 0 braided).heaviest? = some { source := 2, target := 1, weight := 4 } ∧
      ∃ after, (ofGraph 0 braided).merge? 0 = some
          (some { node := 4, left := 2, right := 1, height := 4 }, after) ∧
        after.slots = #[some { source := 0, target := 4, weight := 2.5 },
          some { source := 4, target := 3, weight := 0.5 },
          some { source := 4, target := 0, weight := 0.5 }] ∧
        after.Shows 1
          ((Clusters.ofGraph braided).merge { source := 2, target := 1, weight := 4 }) := by
  have hproper : braided.Proper := by
    unfold Graph.Proper
    decide +kernel
  have hready : (ofGraph 0 braided).Ready 0 braided.edges := by
    constructor <;> decide +kernel
  have hchosen : (ofGraph 0 braided).heaviest? =
      some { source := 2, target := 1, weight := 4 } := by
    decide +kernel
  obtain ⟨after, hmerge, hafter, hnext⟩ := merge?_eq_plain hready hchosen
  refine ⟨hready, hchosen, after, hmerge, ?_, (hnext _ (shows_ofGraph 0 hproper)).2.2⟩
  rw [hafter.slots_eq]
  decide +kernel

end Arena

end AverageLinkage
