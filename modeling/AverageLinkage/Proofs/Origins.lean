import Mathlib
import AverageLinkage.Proofs.EdgeLaws
import AverageLinkage.Proofs.HeaviestEdge
import AverageLinkage.Proofs.PlainMerge

/-!
# Where live edges come from

A live edge between two items is an edge of the graph, and any other one stands for the edges
of the graph from the leaves of its source to the leaves of its target.  The first of these
is its origin.  A merge keeps the first edge of a bundle in its place, so the live edges stay
in the order of their origins, and of the heaviest edges a merge takes the one that comes
first in the graph.
-/

namespace AverageLinkage

namespace Clusters

variable {W : Type}

/-! ## Edges with tags -/

section

variable [Weight W]

/-- Join the parallel edges at `node`, and keep the tag of the first edge of each bundle. -/
def bundleTagged (node : Nat) (tagged : List (Edge W × Nat)) : List (Edge W × Nat) :=
  (List.range tagged.length).filterMap fun index => do
    let (_, tag) ← tagged[index]?
    let edge ← joined? node (tagged.map Prod.fst) index
    return (edge, tag)

def Fusion.movedTagged (fusion : Fusion W) (tagged : List (Edge W × Nat)) :
    List (Edge W × Nat) :=
  (tagged.filter fun pair => !pair.1.joins fusion.left fusion.right).map
    (Prod.map fusion.redirect id)

/-- The edges after a merge, each with the tag of the edge in whose place it stands. -/
def Fusion.applyTagged (fusion : Fusion W) (tagged : List (Edge W × Nat)) :
    List (Edge W × Nat) :=
  bundleTagged fusion.node (fusion.movedTagged tagged)

theorem map_fst_bundleTagged (node : Nat) (tagged : List (Edge W × Nat)) :
    (bundleTagged node tagged).map Prod.fst = bundleAt node (tagged.map Prod.fst) := by
  rw [bundleTagged, bundleAt_eq_joined, List.map_filterMap, List.length_map]
  apply List.filterMap_congr
  intro index hindex
  have hlt := List.mem_range.mp hindex
  rw [List.getElem?_eq_getElem hlt]
  cases joined? node (tagged.map Prod.fst) index <;> rfl

theorem map_fst_movedTagged (fusion : Fusion W) (tagged : List (Edge W × Nat)) :
    (fusion.movedTagged tagged).map Prod.fst = fusion.moved (tagged.map Prod.fst) := by
  rw [Fusion.movedTagged, Fusion.moved, List.filter_map]
  simp [Function.comp_def]

/-- What is left of an edge keeps its tag. -/
theorem mem_bundleTagged {node tag : Nat} {tagged : List (Edge W × Nat)} {edge : Edge W} :
    (edge, tag) ∈ bundleTagged node tagged ↔ ∃ before former rest,
      tagged = before ++ (former, tag) :: rest ∧
        joined? node (before.map Prod.fst ++ former :: rest.map Prod.fst)
          (before.map Prod.fst).length = some edge := by
  rw [bundleTagged, List.mem_filterMap]
  constructor
  · rintro ⟨index, hindex, hpair⟩
    have hlt := List.mem_range.mp hindex
    have hsplit : tagged = tagged.take index ++ tagged[index] :: tagged.drop (index + 1) := by
      rw [List.getElem_cons_drop, List.take_append_drop]
    rw [List.getElem?_eq_getElem hlt, Option.bind_eq_bind, Option.bind_some,
      Option.bind_eq_bind, Option.bind_eq_some_iff] at hpair
    obtain ⟨kept, hkept, hpair⟩ := hpair
    obtain ⟨rfl, rfl⟩ := Prod.mk.inj (Option.some.inj hpair)
    refine ⟨tagged.take index, tagged[index].1, tagged.drop (index + 1), hsplit, ?_⟩
    rwa [← List.map_cons, ← List.map_append, ← hsplit, List.length_map,
      List.length_take_of_le hlt.le]
  · rintro ⟨before, former, rest, rfl, hjoined⟩
    refine ⟨before.length, by simp, ?_⟩
    rw [List.length_map] at hjoined
    simp [hjoined]

/-- The first edges of bundles stay in the order of their tags. -/
theorem pairwise_bundleTagged {tagged : List (Edge W × Nat)}
    (htagged : tagged.Pairwise fun pair other => pair.2 < other.2) (node : Nat) :
    (bundleTagged node tagged).Pairwise fun pair other => pair.2 < other.2 := by
  rw [bundleTagged, List.pairwise_filterMap]
  refine List.pairwise_lt_range.imp ?_
  intro index later hlt pair hpair other hother
  simp only [Option.bind_eq_bind, Option.bind_eq_some_iff, Option.pure_def, Option.some.injEq]
    at hpair hother
  obtain ⟨former, hformer, _, _, rfl⟩ := hpair
  obtain ⟨next, hnext, _, _, rfl⟩ := hother
  obtain ⟨hindex, rfl⟩ := List.getElem?_eq_some_iff.mp hformer
  obtain ⟨hlater, rfl⟩ := List.getElem?_eq_some_iff.mp hnext
  exact List.pairwise_iff_getElem.mp htagged index later hindex hlater hlt

omit [Weight W] in
/-- The first one with a property has the lowest tag. -/
theorem tag_le_of_first {before rest : List (Edge W × Nat)} {first pair : Edge W × Nat}
    (htagged : (before ++ first :: rest).Pairwise fun pair other => pair.2 < other.2)
    (hpair : pair ∈ before ++ first :: rest) (hbefore : pair ∉ before) : first.2 ≤ pair.2 := by
  rcases List.mem_cons.mp ((List.mem_append.mp hpair).resolve_left hbefore) with rfl | hrest
  · exact le_rfl
  · exact (List.rel_of_pairwise_cons (List.pairwise_append.mp htagged).2.1 hrest).le

/-- An edge away from `node` is kept as it is. -/
theorem mem_bundleTagged_of_not_touches {node tag : Nat} {tagged : List (Edge W × Nat)}
    {edge : Edge W} (hmem : (edge, tag) ∈ tagged) (htouches : edge.touches node = false) :
    (edge, tag) ∈ bundleTagged node tagged := by
  obtain ⟨before, rest, rfl⟩ := List.append_of_mem hmem
  refine mem_bundleTagged.mpr ⟨before, edge, rest, rfl, ?_⟩
  rw [joined?_append, if_neg (by simp [htouches])]

/-- Of every bundle at `node` an edge is kept, with a tag that is as low as any. -/
theorem exists_mem_bundleTagged {node tag : Nat} {tagged : List (Edge W × Nat)}
    (htagged : tagged.Pairwise fun pair other => pair.2 < other.2) {edge : Edge W}
    (hmem : (edge, tag) ∈ tagged) (htouches : edge.touches node = true) :
    ∃ pair ∈ bundleTagged node tagged, pair.1.leads edge.source edge.target = true ∧
      pair.2 ≤ tag := by
  have hself : edge.leads edge.source edge.target = true := by simp
  have hsome : (tagged.find? (·.1.leads edge.source edge.target)).isSome = true :=
    List.find?_isSome.mpr ⟨_, hmem, hself⟩
  obtain ⟨⟨first, low⟩, hfirst⟩ := Option.isSome_iff_exists.mp hsome
  obtain ⟨hleads, before, rest, rfl, hbefore⟩ := List.find?_eq_some_iff_append.mp hfirst
  obtain ⟨hsource, htarget⟩ := Edge.leads_iff.mp hleads
  have hnone : (before.map Prod.fst).any first.parallel = false := by
    rw [Edge.parallel_eq_leads, hsource, htarget, List.any_map, List.any_eq_false]
    intro pair hpair htrue
    have hnot := hbefore pair hpair
    rw [show pair.1.leads edge.source edge.target = true from htrue] at hnot
    exact Bool.false_ne_true hnot
  have hnode : first.touches node = true :=
    Edge.touches_of_leads hleads (touches_iff.mp htouches)
  have hkept := joined?_append node (before.map Prod.fst) first (rest.map Prod.fst)
  rw [if_pos hnode, if_neg (by simp [hnone])] at hkept
  refine ⟨_, mem_bundleTagged.mpr ⟨before, first, rest, rfl, hkept⟩, hleads, ?_⟩
  refine tag_le_of_first htagged hmem fun hearlier => ?_
  have hnot := hbefore _ hearlier
  rw [hself] at hnot
  exact Bool.false_ne_true hnot

/-- What is kept has the ends of an edge with the same tag.  At `node` this edge is the first
one of its bundle. -/
theorem exists_of_mem_bundleTagged {node tag : Nat} {tagged : List (Edge W × Nat)}
    (htagged : tagged.Pairwise fun pair other => pair.2 < other.2) {edge : Edge W}
    (hmem : (edge, tag) ∈ bundleTagged node tagged) :
    ∃ former, (former, tag) ∈ tagged ∧ former.leads edge.source edge.target = true ∧
      (edge.touches node = false → edge = former) ∧
      (edge.touches node = true → ∀ pair ∈ tagged,
        pair.1.leads edge.source edge.target = true → tag ≤ pair.2) := by
  obtain ⟨before, former, rest, rfl, hjoined⟩ := mem_bundleTagged.mp hmem
  rw [joined?_append, Edge.parallel_eq_leads] at hjoined
  by_cases htouches : former.touches node = true
  · rw [if_pos htouches] at hjoined
    split at hjoined
    · simp at hjoined
    · next hfirst =>
        obtain rfl := Option.some.inj hjoined
        refine ⟨former, by simp, by simp, ?_, ?_⟩
        · intro haway
          exact absurd (htouches.symm.trans haway) (by simp)
        · intro _ pair hpair hleads
          refine tag_le_of_first htagged hpair fun hbefore => hfirst ?_
          exact List.any_eq_true.mpr ⟨pair.1, List.mem_map_of_mem hbefore, hleads⟩
  · rw [if_neg htouches] at hjoined
    obtain rfl := Option.some.inj hjoined
    exact ⟨former, by simp, by simp, fun _ => rfl, fun htrue => absurd htrue htouches⟩

theorem mem_movedTagged {fusion : Fusion W} {tagged : List (Edge W × Nat)} {edge : Edge W}
    {tag : Nat} : (edge, tag) ∈ fusion.movedTagged tagged ↔ ∃ former, (former, tag) ∈ tagged ∧
      former.joins fusion.left fusion.right = false ∧ edge = fusion.redirect former := by
  simp only [Fusion.movedTagged, List.mem_map, List.mem_filter, Prod.map, id, Prod.mk.injEq,
    Bool.not_eq_true']
  constructor
  · rintro ⟨⟨former, _⟩, ⟨hmem, hjoins⟩, rfl, rfl⟩
    exact ⟨former, hmem, hjoins, rfl⟩
  · rintro ⟨former, hmem, hjoins, rfl⟩
    exact ⟨(former, tag), ⟨hmem, hjoins⟩, rfl, rfl⟩

theorem pairwise_movedTagged {tagged : List (Edge W × Nat)}
    (htagged : tagged.Pairwise fun pair other => pair.2 < other.2) (fusion : Fusion W) :
    (fusion.movedTagged tagged).Pairwise fun pair other => pair.2 < other.2 := by
  rw [Fusion.movedTagged, List.pairwise_map]
  exact htagged.filter _

/-- Without its tags the tagged merge is the plain one. -/
theorem map_fst_applyTagged (fusion : Fusion W) (tagged : List (Edge W × Nat)) :
    (fusion.applyTagged tagged).map Prod.fst = fusion.apply (tagged.map Prod.fst) := by
  rw [Fusion.applyTagged, map_fst_bundleTagged, map_fst_movedTagged, Fusion.apply_eq_bundleAt]

/-- An edge after a merge stands in the place of one whose ends it has taken over.  At the
new cluster this is the first one that has come to these ends. -/
theorem exists_of_mem_applyTagged {fusion : Fusion W} {tagged : List (Edge W × Nat)} {tag : Nat}
    (htagged : tagged.Pairwise fun pair other => pair.2 < other.2) {edge : Edge W}
    (hmem : (edge, tag) ∈ fusion.applyTagged tagged) :
    ∃ former, (former, tag) ∈ tagged ∧ former.joins fusion.left fusion.right = false ∧
      (fusion.redirect former).leads edge.source edge.target = true ∧
      (edge.touches fusion.node = false → edge = fusion.redirect former) ∧
      (edge.touches fusion.node = true → ∀ other index, (other, index) ∈ tagged →
        other.joins fusion.left fusion.right = false →
          (fusion.redirect other).leads edge.source edge.target = true → tag ≤ index) := by
  obtain ⟨moved, hmoved, hleads, haway, hfirst⟩ :=
    exists_of_mem_bundleTagged (pairwise_movedTagged htagged fusion) hmem
  obtain ⟨former, hformer, hjoins, rfl⟩ := mem_movedTagged.mp hmoved
  refine ⟨former, hformer, hjoins, hleads, haway, ?_⟩
  intro htouches other index hother hjoins'
  exact hfirst htouches (fusion.redirect other, index)
    (mem_movedTagged.mpr ⟨other, hother, hjoins', rfl⟩)

/-- Every edge that a merge moves is found again with a tag that is not above its own one,
and away from the new cluster with its own tag. -/
theorem exists_mem_applyTagged {fusion : Fusion W} {tagged : List (Edge W × Nat)} {tag : Nat}
    (htagged : tagged.Pairwise fun pair other => pair.2 < other.2) {edge : Edge W}
    (hmem : (edge, tag) ∈ tagged) (hjoins : edge.joins fusion.left fusion.right = false) :
    ∃ kept index, (kept, index) ∈ fusion.applyTagged tagged ∧
      kept.leads (fusion.redirect edge).source (fusion.redirect edge).target = true ∧
      index ≤ tag ∧ (kept.touches fusion.node = false → index = tag) := by
  have hmoved := mem_movedTagged.mpr ⟨edge, hmem, hjoins, rfl⟩
  by_cases htouches : (fusion.redirect edge).touches fusion.node = true
  · obtain ⟨⟨kept, index⟩, hkept, hleads, hle⟩ :=
      exists_mem_bundleTagged (pairwise_movedTagged htagged fusion) hmoved htouches
    refine ⟨kept, index, hkept, hleads, hle, fun haway => ?_⟩
    have hnode := Edge.touches_of_leads hleads (touches_iff.mp htouches)
    exact absurd (hnode.symm.trans haway) (by simp)
  · have haway := eq_false_of_ne_true htouches
    exact ⟨_, tag, mem_bundleTagged_of_not_touches hmoved haway, by simp, le_rfl, fun _ => rfl⟩

/-! ## Origins through a run -/

/-- The live edges with the numbers of edges of the graph.  An edge between two items has its
own number.  Any other one has the lowest number of those that have come to its place. -/
structure Traced (graph : Graph W) (clusters : Clusters W) (traced : List (Edge W × Nat)) :
    Prop where
  edges_eq : traced.map Prod.fst = clusters.edges
  increasing : traced.Pairwise fun pair other => pair.2 < other.2
  behind : ∀ edge origin, (edge, origin) ∈ traced → ∃ original,
    graph.edges[origin]? = some original ∧ clusters.owner original.source = edge.source ∧
      clusters.owner original.target = edge.target
  own : ∀ edge origin, (edge, origin) ∈ traced → edge.source < graph.nodeCount →
    edge.target < graph.nodeCount → graph.edges[origin]? = some edge
  least : ∀ edge origin, (edge, origin) ∈ traced →
    graph.nodeCount ≤ edge.source ∨ graph.nodeCount ≤ edge.target →
      ∀ index original, graph.edges[index]? = some original →
        clusters.owner original.source = edge.source →
        clusters.owner original.target = edge.target → origin ≤ index
  covered : ∀ index original, graph.edges[index]? = some original →
    clusters.owner original.source ≠ clusters.owner original.target →
      ∃ edge origin, (edge, origin) ∈ traced ∧ edge.source = clusters.owner original.source ∧
        edge.target = clusters.owner original.target ∧ origin ≤ index ∧
        (edge.source < graph.nodeCount → edge.target < graph.nodeCount → origin = index)

omit [Weight W] in
/-- At the start every edge stands in its own place. -/
theorem traced_ofGraph {graph : Graph W} (hgraph : graph.Proper) :
    Traced graph (ofGraph graph) graph.edges.zipIdx := by
  have hmem : ∀ {edge : Edge W} {origin : Nat}, (edge, origin) ∈ graph.edges.zipIdx →
      graph.edges[origin]? = some edge := fun hmem => List.mem_zipIdx_iff_getElem?.mp hmem
  constructor
  case edges_eq => exact List.zipIdx_map_fst 0 graph.edges
  case increasing =>
    rw [← List.pairwise_map, List.zipIdx_map_snd]
    exact List.pairwise_lt_range'
  case behind => exact fun edge origin hedge => ⟨edge, hmem hedge, rfl, rfl⟩
  case own => exact fun edge origin hedge _ _ => hmem hedge
  case least =>
    intro edge origin hedge hends
    obtain ⟨_, hsource, htarget⟩ := hgraph edge (List.mem_of_getElem? (hmem hedge))
    omega
  case covered =>
    intro index original horiginal _
    exact ⟨original, index, List.mem_zipIdx_iff_getElem?.mpr horiginal, rfl, rfl, le_rfl,
      fun _ _ => rfl⟩

theorem leads_redirect_fusion {clusters : Clusters W} {edge former : Edge W}
    {source target : Nat} :
    ((clusters.fusion edge).redirect former).leads source target = true ↔
      heir edge.source edge.target clusters.parent.size former.source = source ∧
        heir edge.source edge.target clusters.parent.size former.target = target := by
  rw [Edge.leads_iff, Fusion.source_redirect, Fusion.target_redirect, left_fusion, right_fusion,
    node_fusion]

/-- An edge that does not come to the new cluster is not changed. -/
theorem Fusion.redirect_eq_self {fusion : Fusion W} {edge : Edge W}
    (haway : (fusion.redirect edge).touches fusion.node = false) :
    fusion.redirect edge = edge := by
  have hends : (fusion.redirect edge).source ≠ fusion.node ∧
      (fusion.redirect edge).target ≠ fusion.node := by
    rw [← not_or, ← touches_iff, haway]
    simp
  rw [Fusion.source_redirect, Fusion.target_redirect] at hends
  obtain ⟨_, hsourceLeft, hsourceRight⟩ := (heir_eq_iff_of_ne hends.1).mp rfl
  obtain ⟨_, htargetLeft, htargetRight⟩ := (heir_eq_iff_of_ne hends.2).mp rfl
  rw [Fusion.redirect, fusion.move_of_ne edge.weight hsourceLeft hsourceRight]
  simp only [fusion.move_of_ne edge.weight htargetLeft htargetRight]

omit [Weight W] in
theorem joins_eq_false_of_heir_ne {left right node : Nat} {edge : Edge W}
    (hne : heir left right node edge.source ≠ heir left right node edge.target) :
    edge.joins left right = false :=
  eq_false_of_ne_true fun hjoins => hne (heir_eq_of_joins hjoins)

section Step

variable {graph : Graph W} {clusters : Clusters W} {traced : List (Edge W × Nat)}

theorem Traced.edges_merge (htraced : Traced graph clusters traced) (edge : Edge W) :
    ((clusters.fusion edge).applyTagged traced).map Prod.fst = (clusters.merge edge).edges := by
  rw [map_fst_applyTagged, htraced.edges_eq, Clusters.edges_merge]

/-- The edge of the graph in whose place an edge stands leads between the same clusters. -/
theorem Traced.behind_merge (htraced : Traced graph clusters traced) {edge kept : Edge W}
    {origin : Nat} (hkept : (kept, origin) ∈ (clusters.fusion edge).applyTagged traced) :
    ∃ original, graph.edges[origin]? = some original ∧
      (clusters.merge edge).owner original.source = kept.source ∧
      (clusters.merge edge).owner original.target = kept.target := by
  obtain ⟨former, hformer, _, hleads, _, _⟩ :=
    exists_of_mem_applyTagged htraced.increasing hkept
  obtain ⟨original, horiginal, hsource, htarget⟩ := htraced.behind former origin hformer
  obtain ⟨hkeptSource, hkeptTarget⟩ := leads_redirect_fusion.mp hleads
  refine ⟨original, horiginal, ?_, ?_⟩
  · rw [owner_merge, hsource, hkeptSource]
  · rw [owner_merge, htarget, hkeptTarget]

/-- Away from the new cluster an edge stays as it was. -/
theorem Traced.mem_of_not_touches (htraced : Traced graph clusters traced) {edge kept : Edge W}
    {origin : Nat} (hkept : (kept, origin) ∈ (clusters.fusion edge).applyTagged traced)
    (haway : kept.touches clusters.parent.size = false) : (kept, origin) ∈ traced := by
  obtain ⟨former, hformer, _, _, hsame, _⟩ :=
    exists_of_mem_applyTagged htraced.increasing hkept
  have hkeptEq := hsame haway
  rw [Fusion.redirect_eq_self (hkeptEq ▸ haway)] at hkeptEq
  rwa [hkeptEq]

/-- Every edge of the graph whose ends have not come together is behind a live edge. -/
theorem Traced.covered_merge (htraced : Traced graph clusters traced)
    (hsize : graph.nodeCount ≤ clusters.parent.size) (edge : Edge W) {index : Nat}
    {original : Edge W} (horiginal : graph.edges[index]? = some original)
    (howners : (clusters.merge edge).owner original.source ≠
      (clusters.merge edge).owner original.target) :
    ∃ kept origin, (kept, origin) ∈ (clusters.fusion edge).applyTagged traced ∧
      kept.source = (clusters.merge edge).owner original.source ∧
      kept.target = (clusters.merge edge).owner original.target ∧ origin ≤ index ∧
      (kept.source < graph.nodeCount → kept.target < graph.nodeCount → origin = index) := by
  rw [owner_merge, owner_merge] at howners ⊢
  obtain ⟨other, low, hother, hsource, htarget, hle, hown⟩ :=
    htraced.covered index original horiginal fun hsame => howners (by rw [hsame])
  rw [← hsource, ← htarget] at howners ⊢
  have hspared : other.joins (clusters.fusion edge).left (clusters.fusion edge).right = false :=
    joins_eq_false_of_heir_ne howners
  obtain ⟨kept, origin, hkept, hleads, hlow, haway⟩ :=
    exists_mem_applyTagged htraced.increasing hother hspared
  obtain ⟨hkeptSource, hkeptTarget⟩ := Edge.leads_iff.mp hleads
  rw [Fusion.source_redirect] at hkeptSource
  rw [Fusion.target_redirect] at hkeptTarget
  refine ⟨kept, origin, hkept, hkeptSource, hkeptTarget, hlow.trans hle, ?_⟩
  intro hsourceLt htargetLt
  have hsourceNe : kept.source ≠ clusters.parent.size := by omega
  have htargetNe : kept.target ≠ clusters.parent.size := by omega
  have hsame := ((heir_eq_iff_of_ne hsourceNe).mp hkeptSource.symm).1
  have hsame' := ((heir_eq_iff_of_ne htargetNe).mp hkeptTarget.symm).1
  rw [haway, hown (by omega) (by omega)]
  rw [← Bool.not_eq_true, touches_iff, node_fusion]
  exact not_or.mpr ⟨hsourceNe, htargetNe⟩

/-- No edge of the graph before the origin has come to the same place. -/
theorem Traced.least_merge (htraced : Traced graph clusters traced) {edge kept : Edge W}
    {origin : Nat} (hkept : (kept, origin) ∈ (clusters.fusion edge).applyTagged traced)
    (hne : kept.source ≠ kept.target)
    (hinner : graph.nodeCount ≤ kept.source ∨ graph.nodeCount ≤ kept.target) {index : Nat}
    {original : Edge W} (horiginal : graph.edges[index]? = some original)
    (hsource : (clusters.merge edge).owner original.source = kept.source)
    (htarget : (clusters.merge edge).owner original.target = kept.target) : origin ≤ index := by
  rw [owner_merge] at hsource htarget
  by_cases htouches : kept.touches clusters.parent.size = true
  · obtain ⟨_, _, _, _, _, hfirst⟩ := exists_of_mem_applyTagged htraced.increasing hkept
    have howners : clusters.owner original.source ≠ clusters.owner original.target := by
      intro hsame
      rw [hsame, htarget] at hsource
      exact hne hsource.symm
    -- The edge of the graph is behind a live edge that comes to the same place, and of all
    -- these the one that is kept has the lowest number.
    obtain ⟨other, low, hother, hotherSource, hotherTarget, hle, _⟩ :=
      htraced.covered index original horiginal howners
    rw [← hotherSource] at hsource
    rw [← hotherTarget] at htarget
    rw [← hsource, ← htarget] at hne
    exact (hfirst htouches other low hother (joins_eq_false_of_heir_ne hne)
      (leads_redirect_fusion.mpr ⟨hsource, htarget⟩)).trans hle
  · obtain ⟨hsourceNe, htargetNe⟩ := not_or.mp (mt touches_iff.mpr htouches)
    have hformer := htraced.mem_of_not_touches hkept (eq_false_of_ne_true htouches)
    exact htraced.least kept origin hformer hinner index original horiginal
      ((heir_eq_iff_of_ne hsourceNe).mp hsource).1 ((heir_eq_iff_of_ne htargetNe).mp htarget).1

/-- A merge keeps the live edges in the order of their origins. -/
theorem Traced.merge (htraced : Traced graph clusters traced) (hgraph : graph.Proper)
    (hinv : Invariant graph clusters) {edge : Edge W} (hedge : edge ∈ clusters.edges) :
    Traced graph (clusters.merge edge) ((clusters.fusion edge).applyTagged traced) := by
  have hsize : graph.nodeCount ≤ clusters.parent.size := by
    rw [hinv.recorded.size_parent]
    omega
  constructor
  case edges_eq => exact htraced.edges_merge edge
  case increasing =>
    exact pairwise_bundleTagged (pairwise_movedTagged htraced.increasing _) _
  case behind => exact fun kept origin hkept => htraced.behind_merge hkept
  case own =>
    intro kept origin hkept hsource htarget
    have haway : kept.touches clusters.parent.size = false := by
      rw [← Bool.not_eq_true, touches_iff]
      omega
    exact htraced.own kept origin (htraced.mem_of_not_touches hkept haway) hsource htarget
  case least =>
    intro kept origin hkept hinner index original
    have hmem : kept ∈ (clusters.merge edge).edges :=
      htraced.edges_merge edge ▸ List.mem_map_of_mem hkept
    have hne := ((hinv.merge hgraph hedge).live.exists_mem hmem).1
    exact htraced.least_merge hkept hne hinner
  case covered => exact fun index original => htraced.covered_merge hsize edge

end Step

/-- The live edges of a run can be traced back to edges of the graph. -/
theorem exists_traced_of_reached {graph : Graph W} (hgraph : graph.Proper)
    {clusters : Clusters W} (hreached : Reached (ofGraph graph) clusters) :
    ∃ traced, Traced graph clusters traced := by
  refine Reached.induction (motive := fun clusters => ∃ traced, Traced graph clusters traced)
    ?_ ⟨_, traced_ofGraph hgraph⟩ hreached
  intro clusters edge hreached htraced hedge
  obtain ⟨traced, htraced⟩ := htraced
  exact ⟨_, htraced.merge hgraph (hreached.invariant hgraph) (mem_of_heaviest? hedge)⟩

/-- The number of the edge of the graph from which a live edge comes.  Between two items this
is the edge itself.  Any other live edge comes from the first edge of the graph from a leaf of
its source to a leaf of its target. -/
def IsOrigin (graph : Graph W) (clusters : Clusters W) (edge : Edge W) (origin : Nat) : Prop :=
  if edge.source < graph.nodeCount ∧ edge.target < graph.nodeCount then
    graph.edges[origin]? = some edge
  else
    IsLeast {index | ∃ original, graph.edges[index]? = some original ∧
      original.source ∈ clusters.members edge.source ∧
      original.target ∈ clusters.members edge.target} origin

omit [Weight W] in
theorem Traced.isOrigin {graph : Graph W} {clusters : Clusters W}
    {traced : List (Edge W × Nat)} (htraced : Traced graph clusters traced)
    (hgraph : graph.Proper) (hinv : Invariant graph clusters) {edge : Edge W} {origin : Nat}
    (hedge : (edge, origin) ∈ traced) : IsOrigin graph clusters edge origin := by
  rw [IsOrigin]
  split
  · next hitems => exact htraced.own edge origin hedge hitems.1 hitems.2
  · next hinner =>
      have hmem : edge ∈ clusters.edges := htraced.edges_eq ▸ List.mem_map_of_mem hedge
      obtain ⟨hsource, htarget⟩ := hinv.live.ends_mem hgraph hinv.partitioned hmem
      have hpart := hinv.partitioned
      simp only [hpart.mem_members_iff _ hsource, hpart.mem_members_iff _ htarget]
      constructor
      · obtain ⟨original, horiginal, hsourceOwner, htargetOwner⟩ :=
          htraced.behind edge origin hedge
        obtain ⟨_, hsourceLt, htargetLt⟩ := hgraph original (List.mem_of_getElem? horiginal)
        exact ⟨original, horiginal, ⟨hsourceLt, hsourceOwner⟩, htargetLt, htargetOwner⟩
      · rintro index ⟨original, horiginal, ⟨_, hsourceOwner⟩, _, htargetOwner⟩
        exact htraced.least edge origin hedge (by omega) index original horiginal hsourceOwner
          htargetOwner

omit [Weight W] in
/-- An edge of the graph between two items that are still clusters is live. -/
theorem Traced.mem_of_items {graph : Graph W} {clusters : Clusters W}
    {traced : List (Edge W × Nat)} (htraced : Traced graph clusters traced)
    (hgraph : graph.Proper) (hinv : Invariant graph clusters) {index : Nat} {original : Edge W}
    (horiginal : graph.edges[index]? = some original)
    (hsource : original.source ∈ clusters.current)
    (htarget : original.target ∈ clusters.current) : (original, index) ∈ traced := by
  obtain ⟨hne, hsourceLt, htargetLt⟩ := hgraph original (List.mem_of_getElem? horiginal)
  have hpart := hinv.partitioned
  have howner : ∀ leaf < graph.nodeCount, leaf ∈ clusters.current → clusters.owner leaf = leaf := by
    intro leaf hlt hleaf
    have hself : leaf ∈ clusters.members leaf := by
      rw [hpart.members_leaf leaf hlt, Finset.mem_singleton]
    exact ((hpart.mem_members_iff leaf hleaf leaf).mp hself).2
  have hsourceOwner := howner _ hsourceLt hsource
  have htargetOwner := howner _ htargetLt htarget
  obtain ⟨edge, origin, hedge, hends, hends', _, hsame⟩ :=
    htraced.covered index original horiginal (by rwa [hsourceOwner, htargetOwner])
  rw [hsourceOwner] at hends
  rw [htargetOwner] at hends'
  rw [← hends] at hsourceLt
  rw [← hends'] at htargetLt
  obtain rfl := hsame hsourceLt htargetLt
  have hown := htraced.own edge origin hedge hsourceLt htargetLt
  rw [horiginal, Option.some.injEq] at hown
  rwa [hown]

/-- Of the heaviest edges a merge takes the one with the lowest tag. -/
theorem exists_lowest_of_heaviest? {numbers : Set W} (hnumbers : Weight.Ordered numbers)
    {tagged : List (Edge W × Nat)}
    (htagged : tagged.Pairwise fun pair other => pair.2 < other.2)
    (hweights : ∀ edge ∈ tagged.map Prod.fst, edge.weight ∈ numbers) {best : Edge W}
    (hbest : heaviest? (tagged.map Prod.fst) = some best) :
    ∃ tag, (best, tag) ∈ tagged ∧ ∀ other rival, (other, rival) ∈ tagged →
      ¬best.weight < other.weight ∧ (¬other.weight < best.weight → tag ≤ rival) := by
  have hfirst := firstHeaviest_of_heaviest? hnumbers hweights hbest
  have hheaviest := hfirst.not_lt hnumbers hweights
  obtain ⟨before, after, hsplit, hbefore, _⟩ := hfirst
  obtain ⟨earlier, later, rfl, hearlier, hlater⟩ := List.map_eq_append_iff.mp hsplit
  obtain ⟨⟨_, tag⟩, rest, rfl, rfl, _⟩ := List.map_eq_cons_iff.mp hlater
  refine ⟨tag, by simp, ?_⟩
  intro other rival hother
  refine ⟨hheaviest other (List.mem_map_of_mem hother), fun hheavy => ?_⟩
  refine tag_le_of_first htagged hother fun hlower => hheavy (hbefore other ?_)
  rw [← hearlier]
  exact List.mem_map_of_mem hlower

end

end Clusters

/-- After any number of merges the live edges stand in the order of their origins.  So long
as all weights are numbers, a merge takes the heaviest edge whose origin comes first. -/
theorem Graph.liveEdges_by_origin {graph : Graph Float} (hcheck : Linkage.check graph = .ok ())
    {count : Nat} {clusters : Clusters Float}
    (hrun : Clusters.mergeTimes count (.ofGraph graph) = .ok clusters) :
    ∃ traced : List (Edge Float × Nat),
      traced.map Prod.fst = clusters.edges ∧
      (∀ edge origin, (edge, origin) ∈ traced → Clusters.IsOrigin graph clusters edge origin) ∧
      (∀ index original, graph.edges[index]? = some original →
        original.source ∈ clusters.current → original.target ∈ clusters.current →
          (original, index) ∈ traced) ∧
      (traced.Pairwise fun pair other => pair.2 < other.2) ∧
      ((∀ edge ∈ clusters.edges, edge.weight.isNaN = false) →
        ∀ best, Clusters.heaviest? clusters.edges = some best →
          clusters.step? = some (clusters.merge best) ∧
          ∃ origin, (best, origin) ∈ traced ∧ ∀ other rival, (other, rival) ∈ traced →
            ¬best.weight < other.weight ∧
              (¬other.weight < best.weight → origin ≤ rival)) := by
  have hgraph := (Linkage.check_eq_ok_iff.mp hcheck).2
  have hinv := Clusters.invariant_of_mergeTimes hgraph hrun
  obtain ⟨traced, htraced⟩ := Clusters.exists_traced_of_reached hgraph ⟨count, hrun⟩
  refine ⟨traced, htraced.edges_eq, ?_, ?_, htraced.increasing, ?_⟩
  · exact fun edge origin => htraced.isOrigin hgraph hinv
  · exact fun index original => htraced.mem_of_items hgraph hinv
  · intro hnumbers best hbest
    refine ⟨by rw [Clusters.step?, hbest, Option.map_some], ?_⟩
    rw [← htraced.edges_eq] at hnumbers hbest
    exact Clusters.exists_lowest_of_heaviest? Weight.ordered_double htraced.increasing hnumbers
      hbest

/-- Two edges are as heavy as each other from the start, and two others become so. -/
def Graph.tied : Graph Float :=
  { nodeCount := 4
    edges := [{ source := 2, target := 0, weight := 1 }, { source := 3, target := 2, weight := 2 },
      { source := 0, target := 1, weight := 3 }, { source := 2, target := 1, weight := 3 }] }

/-- The two edges to the first cluster become one, as heavy as the edge after it.  Its origin
comes first, and it is taken next. -/
theorem Graph.liveEdges_by_origin_tied :
    Linkage.check Graph.tied = .ok () ∧ ∃ clusters : Clusters Float,
      Clusters.mergeTimes 1 (.ofGraph Graph.tied) = .ok clusters ∧
      (∀ edge ∈ clusters.edges, edge.weight.isNaN = false) ∧
      ∃ origin rival, origin < rival ∧
        Clusters.IsOrigin Graph.tied clusters { source := 2, target := 4, weight := 2 } origin ∧
        Clusters.IsOrigin Graph.tied clusters { source := 3, target := 2, weight := 2 } rival ∧
        clusters.step? = some (clusters.merge { source := 2, target := 4, weight := 2 }) := by
  have hcheck : Linkage.check Graph.tied = .ok () := by decide +kernel
  have hfirst : Clusters.heaviest? (Clusters.ofGraph Graph.tied).edges =
      some { source := 0, target := 1, weight := 3 } := by decide +kernel
  have hstart : Clusters.mergeTimes 0 (.ofGraph Graph.tied) = .ok (.ofGraph Graph.tied) := rfl
  have hrun := Clusters.mergeTimes_succ hstart hfirst
  have hedges : ((Clusters.ofGraph Graph.tied).merge
      { source := 0, target := 1, weight := 3 }).edges =
        [{ source := 2, target := 4, weight := 2 }, { source := 3, target := 2, weight := 2 }] := by
    decide +kernel
  obtain ⟨traced, hfst, horigin, _, hincreasing, hlowest⟩ :=
    Graph.liveEdges_by_origin hcheck hrun
  have hnumbers : ∀ edge ∈ ((Clusters.ofGraph Graph.tied).merge
      { source := 0, target := 1, weight := 3 }).edges, edge.weight.isNaN = false := by
    rw [hedges]
    decide +kernel
  have hnext := (hlowest hnumbers { source := 2, target := 4, weight := 2 }
    (by rw [hedges]; decide +kernel)).1
  refine ⟨hcheck, _, hrun, hnumbers, ?_⟩
  rw [hedges] at hfst
  obtain ⟨⟨_, origin⟩, rest, rfl, rfl, hrest⟩ := List.map_eq_cons_iff.mp hfst
  obtain ⟨⟨_, rival⟩, _, rfl, rfl, _⟩ := List.map_eq_cons_iff.mp hrest
  refine ⟨origin, rival, ?_, horigin _ _ (by simp), horigin _ _ (by simp), hnext⟩
  exact List.rel_of_pairwise_cons hincreasing List.mem_cons_self

end AverageLinkage
