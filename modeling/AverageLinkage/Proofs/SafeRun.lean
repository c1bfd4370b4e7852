import Mathlib
import AverageLinkage.Linkage.Finish
import AverageLinkage.Proofs.CheckedAccess
import AverageLinkage.Proofs.CountDoubles
import AverageLinkage.Proofs.EdgeLaws
import AverageLinkage.Proofs.ForestLeaves
import AverageLinkage.Proofs.InPlace
import AverageLinkage.Proofs.MergeRecords

/-!
# A clustering in place stays within its bounds

For a graph that passes its check, no access of a clustering in place falls outside of an
array and no difference is negative.  The reason is in the state that the arena shows: the
current clusters partition the items, so populations are between one and the number of
items, there is a live edge for each merge that is still to be made, and the new cluster is
always one of those that the forest has room for.  The nodes found in the end are those of
the forest.
-/

namespace AverageLinkage

variable {W : Type}

/-- No cluster has more items than there are. -/
theorem Clusters.Partitioned.populationOf_le {leafCount : Nat} {clusters : Clusters W}
    (hpart : Partitioned leafCount clusters) (hrec : Recorded leafCount clusters) {id : Nat}
    (hid : id < clusters.parent.size) : clusters.populationOf id ≤ leafCount := by
  have hcard := Finset.card_le_card (hpart.members_subset_range hrec hid)
  rwa [← hpart.population_eq id hid, Finset.card_range] at hcard

theorem Clusters.Recorded.parentOf_lt {leafCount : Nat} {clusters : Clusters W}
    (hrec : Recorded leafCount clusters) {id : Nat} (hid : id < clusters.parent.size) :
    clusters.parentOf id < clusters.parent.size := by
  by_cases hroot : clusters.parentOf id = id
  · rwa [hroot]
  · exact (hrec.parentOf_bounds hroot).2.2

/-- A node before its children are entered. -/
def MergeForest.Draft.blank (node : MergeForest.Node W) : MergeForest.Draft W :=
  { MergeForest.Draft.ofNode node with slots := (none, none) }

namespace Arena

open Clusters
open MergeForest (Draft enterChild mergeHeight ofClusters)

/-! ## Bounds in every state -/

/-- The arrays have an entry for every cluster, populations count items, and the links of the
first `total` clusters stay among these. -/
structure Bounded (nodeCount total : Nat) (arena : Arena W) : Prop where
  sized : arena.Sized nodeCount
  population : ∀ (id value : Nat), arena.population[id]? = some value →
    1 ≤ value ∧ value ≤ nodeCount
  parent : ∀ (id value : Nat), id < total → arena.parent[id]? = some value → value < total

theorem Shows.population_getElem? {arena : Arena W} {step : Nat} {clusters : Clusters W}
    (hshows : arena.Shows step clusters) {id : Nat} (hid : id < clusters.parent.size) :
    arena.population[id]? = some (clusters.populationOf id) := by
  have hlt : id < clusters.population.size := hshows.size_population.symm ▸ hid
  rw [hshows.population_eq id hid, populationOf, Array.getElem?_eq_getElem hlt,
    Array.getD_eq_getD_getElem?, Array.getElem?_eq_getElem hlt, Option.getD_some]

theorem Shows.parent_getElem? {arena : Arena W} {step : Nat} {clusters : Clusters W}
    (hshows : arena.Shows step clusters) {id : Nat} (hid : id < clusters.parent.size) :
    arena.parent[id]? = some (clusters.parentOf id) := by
  rw [hshows.parent_eq id hid, parentOf, Array.getElem?_eq_getElem hid,
    Array.getD_eq_getD_getElem?, Array.getElem?_eq_getElem hid, Option.getD_some]

/-- An arena that shows a state of a clustering is bounded. -/
theorem Shows.bounded {arena : Arena W} {step total nodeCount : Nat} {clusters : Clusters W}
    {unmerged : W} (hshows : arena.Shows step clusters) (hsized : arena.Sized nodeCount)
    (huntouched : arena.Untouched unmerged step) (hpart : Partitioned nodeCount clusters)
    (hrec : Recorded nodeCount clusters) (htotal : nodeCount + step ≤ total) :
    arena.Bounded nodeCount total where
  sized := hsized
  population := by
    intro id value hvalue
    have hid : id < arena.population.size := (Array.getElem?_eq_some_iff.mp hvalue).1
    rcases Nat.lt_or_ge id clusters.parent.size with hformed | hfree
    · rw [hshows.population_getElem? hformed, Option.some.injEq] at hvalue
      subst hvalue
      exact ⟨hpart.populationOf_pos hrec hformed, hpart.populationOf_le hrec hformed⟩
    · rw [hshows.size_parent] at hfree
      rw [huntouched.population_eq id hid hfree, Option.some.injEq] at hvalue
      rw [hsized.size_population] at hid
      omega
  parent := by
    intro id value hid hvalue
    have hsize := hshows.size_parent
    rw [hsized.leafCount_eq] at hsize
    rcases Nat.lt_or_ge id clusters.parent.size with hformed | hfree
    · rw [hshows.parent_getElem? hformed, Option.some.injEq] at hvalue
      have hlt := hrec.parentOf_lt hformed
      omega
    · have hlt : id < arena.parent.size := (Array.getElem?_eq_some_iff.mp hvalue).1
      rw [hshows.parent_free id hlt hfree, Option.some.injEq] at hvalue
      omega

/-! ## Every merge -/

/-- Merge number `step` is made.  Its cluster has an entry, also among the first `total`.  The
populations of the parts add up to one that is not too large, and by which the share of a part
can be divided. -/
structure Merges (nodeCount total step : Nat) (arena : Arena Float) : Prop where
  node_lt : arena.leafCount + step < 2 * arena.leafCount ∧ arena.leafCount + step < total
  exists_merge : ∃ edge part rest after, arena.heaviest? = some edge ∧
    arena.population[edge.source]? = some part ∧ arena.population[edge.target]? = some rest ∧
    part + rest ≤ nodeCount ∧ 0 < part + rest ∧ (Float.ofNat (part + rest) == 0) = false ∧
    arena.merge? step = some
      (some { node := arena.leafCount + step, left := edge.source, right := edge.target
              height := edge.weight }, after)

theorem Shows.merges {graph : Graph Float} (hgraph : graph.Proper)
    (hwords : graph.nodeCount ≤ Natural.wordLimit) {arena : Arena Float} {step total : Nat}
    {clusters : Clusters Float} (hshows : arena.Shows step clusters)
    (hsized : arena.Sized graph.nodeCount) (hreached : Reached (Clusters.ofGraph graph) clusters)
    {edge : Edge Float} (hedge : Clusters.heaviest? clusters.edges = some edge)
    (htotal : graph.nodeCount + step < total) (hroom : total ≤ 2 * graph.nodeCount) :
    arena.Merges graph.nodeCount total step := by
  have hmem := mem_of_heaviest? hedge
  have hinv := hreached.invariant hgraph
  have hready := hshows.ready hsized hgraph hwords hinv hmem
  obtain ⟨after, hmerge, -⟩ := hready.exists_merge? hedge
  obtain ⟨hsource, htarget⟩ := hshows.ends_lt edge hmem
  have hpart := hinv.partitioned.populationOf_pos hinv.recorded hsource
  have hpos : 0 < clusters.populationOf edge.source + clusters.populationOf edge.target :=
    Nat.add_pos_left hpart _
  obtain ⟨hleft, hright⟩ := hinv.live.ends_mem hgraph hinv.partitioned hmem
  have hsum := hinv.partitioned.populationOf_add_le hleft hright (hinv.live.exists_mem hmem).1
  have hleaves := hsized.leafCount_eq
  refine ⟨by omega, edge, _, _, after, ?_, hshows.population_getElem? hsource,
    hshows.population_getElem? htarget, hsum, hpos, Binary64.ofNat_beq_zero hpos, hmerge⟩
  rw [heaviest?_eq hshows.slots_eq, hedge]

/-! ## The nodes of the forest -/

variable [Weight W]

theorem subtract?_eq {whole part : Nat} (hle : part ≤ whole) :
    subtract? whole part = some (whole - part) :=
  if_pos hle

/-- The nodes of `ids` that are linked to another one. -/
def linkedIn (arena : Arena W) (ids : List Nat) (node : Nat) : List Nat :=
  ids.filter fun child => child != node && arena.parent[child]? == some node

omit [Weight W] in
theorem linkedIn_cons (arena : Arena W) (id : Nat) (rest : List Nat) (node : Nat) :
    arena.linkedIn (id :: rest) node = arena.linkedIn [id] node ++ arena.linkedIn rest node :=
  List.filter_append [id] rest

omit [Weight W] in
theorem linkedIn_singleton {arena : Arena W} {id parent : Nat}
    (hparent : arena.parent[id]? = some parent) (node : Nat) :
    arena.linkedIn [id] node = if id ≠ node ∧ parent = node then [id] else [] := by
  simp [linkedIn, List.filter_cons, hparent]

omit [Weight W] in
/-- A node that enters itself goes to the slots of its parent, if it is no root. -/
theorem exists_enter? {arena : Arena W} {drafts : Array (Draft W)} {id parent : Nat}
    (hparent : arena.parent[id]? = some parent) (hlt : parent < drafts.size) :
    ∃ after, arena.enter? drafts id = some after ∧ after.size = drafts.size ∧
      ∀ node : Nat, after[node]? =
        drafts[node]?.map fun draft => (arena.linkedIn [id] node).foldl Draft.enter draft := by
  simp only [linkedIn_singleton hparent]
  by_cases hroot : parent = id
  · refine ⟨drafts, by simp [enter?, hparent, hroot], rfl, fun node => ?_⟩
    have hnone : ¬(id ≠ node ∧ parent = node) := by omega
    simp [hnone]
  · refine ⟨drafts.setIfInBounds parent (drafts[parent].enter id), ?_, by simp, fun node => ?_⟩
    · simp [enter?, hparent, hroot, Array.getElem?_eq_getElem hlt, write?_eq hlt]
    · by_cases hnode : parent = node
      · subst hnode
        rw [Array.getElem?_setIfInBounds_self_of_lt hlt, Array.getElem?_eq_getElem hlt]
        simp [Ne.symm hroot]
      · rw [Array.getElem?_setIfInBounds_ne hnode]
        simp [hnode]

omit [Weight W] in
/-- When all nodes have entered themselves, the slots of each hold those linked to it. -/
theorem exists_foldlM_enter? {arena : Arena W} {ids : List Nat} {drafts : Array (Draft W)}
    (hids : ∀ id ∈ ids, ∃ parent, arena.parent[id]? = some parent ∧ parent < drafts.size) :
    ∃ after, ids.foldlM arena.enter? drafts = some after ∧
      ∀ node : Nat, after[node]? =
        drafts[node]?.map fun draft => (arena.linkedIn ids node).foldl Draft.enter draft := by
  induction ids generalizing drafts with
  | nil => exact ⟨drafts, rfl, fun node => by simp [linkedIn]⟩
  | cons id rest ih =>
      obtain ⟨parent, hparent, hlt⟩ := hids id List.mem_cons_self
      obtain ⟨next, hnext, hsize, hfirst⟩ := exists_enter? hparent hlt
      have hrest : ∀ other ∈ rest, ∃ parent, arena.parent[other]? = some parent ∧
          parent < next.size := by
        intro other hother
        rw [hsize]
        exact hids other (List.mem_cons_of_mem id hother)
      obtain ⟨after, hafter, hothers⟩ := ih hrest
      refine ⟨after, ?_, fun node => ?_⟩
      · rw [List.foldlM_cons, hnext, Option.bind_eq_bind, Option.bind_some, hafter]
      · rw [hothers, hfirst, Option.map_map, linkedIn_cons arena id rest]
        simp only [Function.comp_def, List.foldl_append]

omit [Weight W] in
theorem foldl_enter (children : List Nat) (draft : Draft W) :
    children.foldl Draft.enter draft =
      { draft with slots := children.foldl enterChild draft.slots } := by
  induction children generalizing draft with
  | nil => rfl
  | cons child rest ih => exact ih (draft.enter child)

theorem mapM_range_eq {Value : Type} {read? : Nat → Option Value} {values : List Value}
    (hread : ∀ id < values.length, read? id = values[id]?) :
    (List.range values.length).mapM read? = some values := by
  induction values using List.reverseRecOn with
  | nil => rfl
  | append_singleton before last ih =>
      have hlast : read? before.length = some last := by
        rw [hread _ (by simp), List.getElem?_concat_length]
      have hbefore : (List.range before.length).mapM read? = some before := by
        apply ih
        intro id hid
        rw [hread id (by simp; omega), List.getElem?_append_left hid]
      rw [List.length_append, List.length_singleton, List.range_succ, List.mapM_append, hbefore]
      simp [hlast]

section Finish

variable {arena : Arena W} {unmerged : W} {nodeCount step : Nat} {clusters : Clusters W}

theorem Shows.placeholder?_eq (hshows : arena.Shows step clusters) :
    arena.placeholder? (arena.leafCount + step) =
      some (MergeForest.placeholder clusters.merges) := by
  have hsize := hshows.size_merges
  rw [placeholder?, MergeForest.placeholder]
  cases hfirst : clusters.merges[0]? with
  | none =>
      rw [Array.getElem?_eq_none_iff] at hfirst
      rw [if_neg (by omega)]
      rfl
  | some first =>
      have hpos := (Array.getElem?_eq_some_iff.mp hfirst).1
      have hheight := hshows.height_eq 0 first hfirst
      rw [if_pos (by omega), ← Nat.add_zero arena.leafCount, hheight]
      rfl

/-- The entries of a node are those of the forest, but for the children. -/
theorem Shows.draft?_eq (hshows : arena.Shows step clusters) (hsized : arena.Sized nodeCount)
    (huntouched : arena.Untouched unmerged step) (hrec : Recorded nodeCount clusters)
    (hfree : ∀ height, mergeHeight height unmerged = height) {componentCount id : Nat}
    {node : MergeForest.Node W}
    (hnode : (ofClusters nodeCount componentCount clusters).node? id = some node) :
    arena.draft? (MergeForest.placeholder clusters.merges) id =
      some (.blank node) := by
  obtain ⟨hid, hparent, hpopulation, -⟩ := hrec.of_node? hnode
  have hsize := hshows.size_parent
  rw [hsized.leafCount_eq] at hsize
  have hheight : ∃ height, arena.height[id]? = some height ∧
      mergeHeight (MergeForest.placeholder clusters.merges) height = node.height := by
    rcases Nat.lt_or_ge id nodeCount with hleaf | hinner
    · rw [MergeForest.node?_ofClusters_of_lt componentCount clusters hleaf,
        Option.some.injEq] at hnode
      subst hnode
      refine ⟨unmerged, huntouched.height_eq id ?_ (.inl ?_), hfree _⟩
      · rw [hsized.size_height]
        omega
      · rwa [hsized.leafCount_eq]
    · rw [MergeForest.node?_ofClusters_of_le componentCount clusters hinner,
        Option.map_eq_some_iff] at hnode
      obtain ⟨merge, hmerge, rfl⟩ := hnode
      have hheight := hshows.height_eq _ merge hmerge
      rw [hsized.leafCount_eq, Nat.add_sub_cancel' hinner] at hheight
      exact ⟨merge.height, hheight, rfl⟩
  obtain ⟨height, hread, hshown⟩ := hheight
  simp [draft?, hshows.parent_getElem? hid, hshows.population_getElem? hid, hread, hshown,
    Draft.blank, Draft.ofNode, hparent, hpopulation]

theorem Shows.mapM_draft?_eq (hshows : arena.Shows step clusters) (hsized : arena.Sized nodeCount)
    (huntouched : arena.Untouched unmerged step) (hrec : Recorded nodeCount clusters)
    (hfree : ∀ height, mergeHeight height unmerged = height) (componentCount : Nat) :
    (List.range clusters.parent.size).mapM
        (arena.draft? (MergeForest.placeholder clusters.merges)) =
      some ((ofClusters nodeCount componentCount clusters).nodes.toList.map
        Draft.blank) := by
  have hforest := hrec.size_forest componentCount
  have hlength : ((ofClusters nodeCount componentCount clusters).nodes.toList.map
      Draft.blank).length = clusters.parent.size := by
    rw [← hforest, List.length_map, Array.length_toList, MergeForest.size]
  rw [← hlength]
  refine mapM_range_eq fun id hid => ?_
  rw [hlength] at hid
  obtain ⟨node, hnode, -⟩ := hrec.exists_node componentCount hid
  rw [hshows.draft?_eq hsized huntouched hrec hfree hnode, List.getElem?_map,
    Array.getElem?_toList]
  rw [MergeForest.node?] at hnode
  rw [hnode, Option.map_some]

theorem Shows.linkedIn_eq (hshows : arena.Shows step clusters) (hrec : Recorded nodeCount clusters)
    (componentCount node : Nat) :
    arena.linkedIn (List.range clusters.parent.size) node =
      (ofClusters nodeCount componentCount clusters).linked node := by
  rw [linkedIn, MergeForest.linked, hrec.size_forest]
  refine List.filter_congr fun child hchild => ?_
  rw [List.mem_range] at hchild
  obtain ⟨link, hlink, hparent, -⟩ := hrec.exists_node componentCount hchild
  rw [hshows.parent_getElem? hchild, hlink, Option.any_some, hparent]
  rfl

/-- The links fill the slots with the children. -/
theorem Shows.foldlM_enter?_eq (hshows : arena.Shows step clusters)
    (hrec : Recorded nodeCount clusters) (componentCount : Nat) :
    (List.range clusters.parent.size).foldlM arena.enter?
        ((ofClusters nodeCount componentCount clusters).nodes.map Draft.blank) =
      some ((ofClusters nodeCount componentCount clusters).nodes.map
        Draft.ofNode) := by
  have hlinks : ∀ id ∈ List.range clusters.parent.size, ∃ parent,
      arena.parent[id]? = some parent ∧ parent <
        ((ofClusters nodeCount componentCount clusters).nodes.map
          Draft.blank).size := by
    intro id hid
    rw [List.mem_range] at hid
    refine ⟨_, hshows.parent_getElem? hid, ?_⟩
    rw [Array.size_map, ← MergeForest.size, hrec.size_forest]
    exact hrec.parentOf_lt hid
  obtain ⟨after, hafter, hslots⟩ := exists_foldlM_enter? hlinks
  rw [hafter, Option.some.injEq]
  apply Array.ext_getElem?
  intro id
  rw [hslots, hshows.linkedIn_eq hrec componentCount, Array.getElem?_map, Array.getElem?_map,
    Option.map_map]
  refine Option.map_congr fun node hnode => ?_
  rw [Function.comp_apply, foldl_enter]
  exact congrArg (fun slots => { Draft.ofNode node with slots }) (hrec.slots_forest hnode)

/-- The nodes of an arena in which all merges are made are those of the forest. -/
theorem Shows.drafts?_eq (hshows : arena.Shows step clusters) (hsized : arena.Sized nodeCount)
    (huntouched : arena.Untouched unmerged step) (hrec : Recorded nodeCount clusters)
    (hfree : ∀ height, mergeHeight height unmerged = height) {componentCount : Nat}
    (hcount : componentCount + step = nodeCount) :
    arena.drafts? componentCount = some
      ((ofClusters nodeCount componentCount clusters).nodes.map Draft.ofNode) := by
  have hsize := hshows.size_parent
  have hleaves := hsized.leafCount_eq
  have htotal : subtract? (2 * arena.leafCount) componentCount = some clusters.parent.size := by
    rw [subtract?_eq (by omega), Option.some.injEq]
    omega
  have hplaceholder := hshows.placeholder?_eq
  rw [← hsize] at hplaceholder
  have hdrafts := hshows.mapM_draft?_eq hsized huntouched hrec hfree componentCount
  have hslots := hshows.foldlM_enter?_eq hrec componentCount
  have harray : ((ofClusters nodeCount componentCount clusters).nodes.toList.map
      Draft.blank).toArray =
      (ofClusters nodeCount componentCount clusters).nodes.map Draft.blank := by
    rw [← Array.toList_map, Array.toArray_toList]
  simp only [drafts?, htotal, hplaceholder, hdrafts, harray, hslots, Option.bind_eq_bind,
    Option.bind_some]

end Finish

end Arena

namespace Graph

variable [Weight W]

/-- A run in place reaches every state of the clustering. -/
theorem exists_shows (unmerged : W) {graph : Graph W} (hgraph : graph.Proper)
    (hwords : graph.nodeCount ≤ Natural.wordLimit) {step : Nat}
    (hstep : step ≤ graph.nodeCount - graph.components.count) :
    ∃ clusters arena, Clusters.mergeTimes step (.ofGraph graph) = .ok clusters ∧
      (Arena.ofGraph unmerged graph).mergeTimes? step = some arena ∧
      arena.Sized graph.nodeCount ∧ arena.Shows step clusters ∧ arena.Untouched unmerged step := by
  have hle := count_components_le hgraph
  have hcount : step + graph.components.count ≤ (Clusters.ofGraph graph).current.card := by
    rw [Clusters.current_ofGraph, Finset.card_range]
    omega
  obtain ⟨clusters, hrun⟩ := (Clusters.invariant_ofGraph hgraph).exists_mergeTimes hgraph hcount
  obtain ⟨arena, harena⟩ := Arena.exists_mergeTimes? unmerged hgraph hwords ⟨step, hrun⟩
  rw [Clusters.size_merges_of_mergeTimes hrun] at harena
  exact ⟨clusters, arena, hrun, harena⟩

/-- Every state of a run in place is bounded, and all merges are made. -/
theorem exists_bounded (unmerged : Float) {graph : Graph Float} (hgraph : graph.Proper)
    (hwords : graph.nodeCount ≤ Natural.wordLimit) {step : Nat}
    (hstep : step ≤ graph.nodeCount - graph.components.count) :
    ∃ arena, (Arena.ofGraph unmerged graph).mergeTimes? step = some arena ∧
      arena.Bounded graph.nodeCount (2 * graph.nodeCount - graph.components.count) ∧
      (step < graph.nodeCount - graph.components.count →
        arena.Merges graph.nodeCount (2 * graph.nodeCount - graph.components.count) step) := by
  obtain ⟨clusters, arena, hrun, harena, hsized, hshows, huntouched⟩ :=
    exists_shows unmerged hgraph hwords hstep
  have hle := count_components_le hgraph
  have hinv := Clusters.invariant_of_mergeTimes hgraph hrun
  refine ⟨arena, harena, ?_, fun hlt => ?_⟩
  · exact hshows.bounded hsized huntouched hinv.partitioned hinv.recorded (by omega)
  · have hedges : Clusters.heaviest? clusters.edges ≠ none := by
      have hcard := Clusters.card_current_of_mergeTimes hgraph hrun
      rw [Ne, Clusters.heaviest?_eq_none_iff, hinv.edges_eq_nil_iff hgraph]
      omega
    obtain ⟨edge, hedge⟩ := Option.ne_none_iff_exists'.mp hedges
    exact hshows.merges hgraph hwords hsized ⟨step, hrun⟩ hedge (by omega) (by omega)

/-- The nodes that a clustering in place ends with are those of the forest. -/
theorem Clustered.drafts?_eq {unmerged : W}
    (hfree : ∀ height, MergeForest.mergeHeight height unmerged = height) {graph : Graph W}
    (hgraph : graph.Proper) (hwords : graph.nodeCount ≤ Natural.wordLimit)
    {linkage : Linkage W} (hlinkage : graph.Clustered linkage) :
    graph.drafts? unmerged = some (linkage.forest.nodes.map MergeForest.Draft.ofNode) := by
  have hle := count_components_le hgraph
  obtain ⟨clusters, arena, hrun, harena, hsized, hshows, huntouched⟩ :=
    exists_shows unmerged hgraph hwords le_rfl
  obtain rfl := Except.ok.inj (hlinkage.2.2.symm.trans hrun)
  have hnodes := hshows.drafts?_eq hsized huntouched (hlinkage.invariant hgraph).recorded hfree
    (Nat.add_sub_cancel' hle)
  simp only [Graph.drafts?, components?_eq hgraph.inRange, Arena.subtract?_eq hle, harena, hnodes,
    hlinkage.forest_eq, Option.bind_eq_bind, Option.bind_some]

theorem mergeHeight_unmerged (height : Float) :
    MergeForest.mergeHeight height Arena.unmerged = height := by
  have hnonneg : ¬Arena.unmerged < 0 := by decide +kernel
  have htop : Weight.isTop Arena.unmerged = true := by decide +kernel
  rw [MergeForest.mergeHeight, if_neg hnonneg, if_pos htop]

/-- A graph that passes its check is clustered in place, given room for the arrays, without an
access outside of one of them and without a negative difference.  In every state the arrays
are full, populations count items and links lead to nodes of the forest, and every merge that
is asked for is made. -/
theorem drafts?_of_check {graph : Graph Float} (hcheck : Linkage.check graph = .ok ()) :
    2 * graph.nodeCount ≤ Linkage.idLimit ∧
    ∃ components linkage, graph.components? = some components ∧
      components.count ≤ graph.nodeCount ∧
      (∀ step ≤ graph.nodeCount - components.count, ∃ arena,
        (Arena.ofGraph Arena.unmerged graph).mergeTimes? step = some arena ∧
        arena.Bounded graph.nodeCount (2 * graph.nodeCount - components.count) ∧
        (step < graph.nodeCount - components.count →
          arena.Merges graph.nodeCount (2 * graph.nodeCount - components.count) step)) ∧
      graph.cluster = .ok linkage ∧
      linkage.forest.size = 2 * graph.nodeCount - components.count ∧
      graph.drafts? Arena.unmerged =
        some (linkage.forest.nodes.map MergeForest.Draft.ofNode) := by
  obtain ⟨hlimit, hgraph⟩ := Linkage.check_eq_ok_iff.mp hcheck
  obtain ⟨linkage, hrun⟩ := exists_cluster_iff.mpr ⟨hlimit, hgraph⟩
  obtain ⟨-, hlinkage⟩ := proper_of_cluster hrun
  have hwords := nodeCount_le_wordLimit hlimit
  have hle := count_components_le hgraph
  refine ⟨hlimit, graph.components, linkage, components?_eq hgraph.inRange, hle, ?_, hrun, ?_,
    hlinkage.drafts?_eq mergeHeight_unmerged hgraph hwords⟩
  · exact fun step hstep => exists_bounded Arena.unmerged hgraph hwords hstep
  · have hmerges := hlinkage.size_merges
    rw [hlinkage.forest_eq, MergeForest.size_ofClusters]
    rw [Linkage.merges] at hmerges
    omega

/-- A path whose edges lead from higher to lower numbers, and a node alone. -/
def backward : Graph Float :=
  { nodeCount := 4
    edges := [{ source := 3, target := 1, weight := 2 },
      { source := 1, target := 0, weight := 1 }] }

/-- The second of two merges on four items, one of which stays alone. -/
theorem drafts?_of_check_backward :
    Linkage.check backward = .ok () ∧ (backward.components?.map fun found => found.count) = some 2 ∧
      (∃ arena, (Arena.ofGraph Arena.unmerged backward).mergeTimes? 1 = some arena ∧
        arena.Bounded 4 6 ∧ arena.Merges 4 6 1) ∧
      ∃ linkage, backward.cluster = .ok linkage ∧ linkage.forest.size = 6 ∧
        backward.drafts? Arena.unmerged =
          some (linkage.forest.nodes.map MergeForest.Draft.ofNode) := by
  have hcheck : Linkage.check backward = .ok () := rfl
  have hcount : (backward.components?.map fun found => found.count) = some 2 := by decide +kernel
  obtain ⟨-, components, linkage, hcomponents, -, hstates, hrun, hsize, hdrafts⟩ :=
    drafts?_of_check hcheck
  rw [hcomponents, Option.map_some, Option.some.injEq] at hcount
  rw [hcount] at hstates hsize
  obtain ⟨arena, harena, hbounded, hmerges⟩ := hstates 1 (by decide)
  exact ⟨hcheck, by rw [hcomponents, Option.map_some, hcount],
    ⟨arena, harena, hbounded, hmerges (by decide)⟩, linkage, hrun, hsize, hdrafts⟩

end Graph

end AverageLinkage
