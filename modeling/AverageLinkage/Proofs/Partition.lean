import Mathlib
import AverageLinkage.Proofs.LiveEdges

/-!
# Clusters as sets of leaves

A cluster is an item or was formed by a merge, so the recorded merges give its
leaves.  As long as every merge takes two different current clusters, the
current clusters partition the items, populations are numbers of leaves, and the
parent links are exactly the recorded merges.
-/

namespace AverageLinkage.Clusters

variable {W : Type}

/-- The clusters that are part of no other one. -/
def current (clusters : Clusters W) : Finset Nat :=
  (Finset.range clusters.parent.size).filter fun id => clusters.parentOf id = id

/-- The leaves of every cluster: those of its two parts for a cluster that was
formed by a merge, and the cluster itself for an item. -/
def members (clusters : Clusters W) : Nat → Finset Nat :=
  clusters.merges.toList.foldl
    (fun sets merge => Function.update sets merge.node (sets merge.left ∪ sets merge.right))
    fun id => {id}

/-- The cluster that an item has come to by the merges. -/
def owner (clusters : Clusters W) : Nat → Nat :=
  clusters.merges.toList.foldl
    (fun owner merge => heir merge.left merge.right merge.node ∘ owner) id

theorem mem_current {clusters : Clusters W} {id : Nat} :
    id ∈ clusters.current ↔ id < clusters.parent.size ∧ clusters.parentOf id = id := by
  simp [current]

@[simp]
theorem members_ofGraph (graph : Graph W) (id : Nat) : (ofGraph graph).members id = {id} := rfl

@[simp]
theorem owner_ofGraph (graph : Graph W) (leaf : Nat) : (ofGraph graph).owner leaf = leaf := rfl

@[simp]
theorem parentOf_ofGraph (graph : Graph W) (id : Nat) : (ofGraph graph).parentOf id = id := by
  rcases Nat.lt_or_ge id graph.nodeCount with hlt | hge
  · simp [ofGraph, parentOf, hlt]
  · simp [ofGraph, parentOf, hge]

@[simp]
theorem current_ofGraph (graph : Graph W) :
    (ofGraph graph).current = Finset.range graph.nodeCount := by
  simp [current]

section

variable [Weight W]

theorem members_merge (clusters : Clusters W) (edge : Edge W) :
    (clusters.merge edge).members = Function.update clusters.members clusters.parent.size
      (clusters.members edge.source ∪ clusters.members edge.target) := by
  simp [members, merge]

theorem members_merge_of_lt (clusters : Clusters W) (edge : Edge W) {id : Nat}
    (hid : id < clusters.parent.size) :
    (clusters.merge edge).members id = clusters.members id := by
  rw [members_merge, Function.update_of_ne (by omega)]

theorem members_merge_self (clusters : Clusters W) (edge : Edge W) :
    (clusters.merge edge).members clusters.parent.size =
      clusters.members edge.source ∪ clusters.members edge.target := by
  rw [members_merge, Function.update_self]

theorem owner_merge (clusters : Clusters W) (edge : Edge W) (leaf : Nat) :
    (clusters.merge edge).owner leaf =
      heir edge.source edge.target clusters.parent.size (clusters.owner leaf) := by
  simp [owner, merge]

/-- A merge changes the links of its two parts only. -/
theorem parentOf_merge {clusters : Clusters W} {edge : Edge W}
    (hsource : edge.source < clusters.parent.size)
    (htarget : edge.target < clusters.parent.size) (id : Nat) :
    (clusters.merge edge).parentOf id =
      if id = edge.source ∨ id = edge.target then clusters.parent.size
      else clusters.parentOf id := by
  simp only [parentOf, merge, Array.getD_eq_getD_getElem?, Array.getElem?_push,
    Array.getElem?_setIfInBounds, Array.size_setIfInBounds]
  grind

/-- A merge adds the population of the new cluster and changes no other one. -/
theorem populationOf_merge (clusters : Clusters W) (edge : Edge W) (id : Nat) :
    (clusters.merge edge).populationOf id =
      if id = clusters.population.size then
        clusters.populationOf edge.source + clusters.populationOf edge.target
      else clusters.populationOf id := by
  simp only [populationOf, merge, Array.getD_eq_getD_getElem?, Array.getElem?_push]
  split <;> rfl

/-- A merge replaces its two parts by the new cluster. -/
theorem current_merge {clusters : Clusters W} {edge : Edge W}
    (hsource : edge.source ∈ clusters.current) (htarget : edge.target ∈ clusters.current) :
    (clusters.merge edge).current =
      insert clusters.parent.size ((clusters.current.erase edge.source).erase edge.target) := by
  have hsourceLt := (mem_current.mp hsource).1
  have htargetLt := (mem_current.mp htarget).1
  ext id
  simp only [mem_current, Finset.mem_insert, Finset.mem_erase, size_parent_merge,
    parentOf_merge hsourceLt htargetLt]
  by_cases hid : id = clusters.parent.size
  · have hout : clusters.parentOf clusters.parent.size = clusters.parent.size := by
      simp [parentOf]
    simp [hid, hout]
  · split <;> grind

theorem heir_mem_current_merge {clusters : Clusters W} {edge : Edge W}
    (hsource : edge.source ∈ clusters.current) (htarget : edge.target ∈ clusters.current)
    {id : Nat} (hid : id ∈ clusters.current) :
    heir edge.source edge.target clusters.parent.size id ∈ (clusters.merge edge).current := by
  rw [current_merge hsource htarget, heir]
  split
  · exact Finset.mem_insert_self _ _
  · next hparts =>
      obtain ⟨hne, hne'⟩ := not_or.mp hparts
      simp [hid, hne, hne']

end

/-! ## Parent links and recorded merges -/

/-- The parent links are those of the recorded merges: every merge has a number
of its own, above those of its two parts, and no other links exist. -/
structure Recorded (leafCount : Nat) (clusters : Clusters W) : Prop where
  size_parent : clusters.parent.size = leafCount + clusters.merges.size
  size_population : clusters.population.size = clusters.parent.size
  node_eq : ∀ index merge, clusters.merges[index]? = some merge →
    merge.node = leafCount + index
  parts_ne : ∀ merge ∈ clusters.merges, merge.left ≠ merge.right
  parts_lt : ∀ merge ∈ clusters.merges, merge.left < merge.node ∧ merge.right < merge.node
  parent_parts : ∀ merge ∈ clusters.merges,
    clusters.parentOf merge.left = merge.node ∧ clusters.parentOf merge.right = merge.node
  part_of : ∀ id, clusters.parentOf id ≠ id → ∃ merge ∈ clusters.merges,
    clusters.parentOf id = merge.node ∧ (id = merge.left ∨ id = merge.right)

theorem Recorded.node_bounds {leafCount : Nat} {clusters : Clusters W}
    (hrec : Recorded leafCount clusters) {merge : Merge W} (hmerge : merge ∈ clusters.merges) :
    leafCount ≤ merge.node ∧ merge.node < clusters.parent.size := by
  obtain ⟨index, hindex⟩ := Array.mem_iff_getElem?.mp hmerge
  have hnode := hrec.node_eq index merge hindex
  have hlt := (Array.getElem?_eq_some_iff.mp hindex).1
  rw [hrec.size_parent]
  omega

/-- The merge that formed a cluster which is no item. -/
theorem Recorded.exists_merge {leafCount : Nat} {clusters : Clusters W}
    (hrec : Recorded leafCount clusters) {id : Nat} (hleaf : leafCount ≤ id)
    (hid : id < clusters.parent.size) : ∃ merge ∈ clusters.merges, merge.node = id := by
  have hindex : id - leafCount < clusters.merges.size := by
    have := hrec.size_parent
    omega
  refine ⟨clusters.merges[id - leafCount], Array.getElem_mem hindex, ?_⟩
  rw [hrec.node_eq _ _ (Array.getElem?_eq_getElem hindex)]
  omega

/-- What holds of the items, and of a merge if it holds of its two parts, holds of
every cluster. -/
theorem Recorded.induction {leafCount : Nat} {clusters : Clusters W}
    (hrec : Recorded leafCount clusters) {motive : Nat → Prop}
    (hleaf : ∀ id < leafCount, motive id)
    (hnode : ∀ merge ∈ clusters.merges, motive merge.left → motive merge.right →
      motive merge.node)
    {id : Nat} (hid : id < clusters.parent.size) : motive id := by
  induction id using Nat.strong_induction_on with
  | _ id ih =>
      rcases Nat.lt_or_ge id leafCount with hlow | hinner
      · exact hleaf id hlow
      · obtain ⟨merge, hmerge, rfl⟩ := hrec.exists_merge hinner hid
        obtain ⟨hleft, hright⟩ := hrec.parts_lt merge hmerge
        exact hnode merge hmerge (ih merge.left hleft (hleft.trans hid))
          (ih merge.right hright (hright.trans hid))

/-- A link leads to a higher number, which is that of a merge. -/
theorem Recorded.parentOf_bounds {leafCount : Nat} {clusters : Clusters W}
    (hrec : Recorded leafCount clusters) {id : Nat} (hlink : clusters.parentOf id ≠ id) :
    id < clusters.parentOf id ∧ leafCount ≤ clusters.parentOf id ∧
      clusters.parentOf id < clusters.parent.size := by
  obtain ⟨merge, hmerge, hparent, hpart⟩ := hrec.part_of id hlink
  obtain ⟨hleft, hright⟩ := hrec.parts_lt merge hmerge
  obtain ⟨hlow, hhigh⟩ := hrec.node_bounds hmerge
  rw [hparent]
  rcases hpart with rfl | rfl
  · exact ⟨hleft, hlow, hhigh⟩
  · exact ⟨hright, hlow, hhigh⟩

theorem recorded_ofGraph (graph : Graph W) : Recorded graph.nodeCount (ofGraph graph) := by
  constructor
  case part_of =>
    intro id hlink
    exact absurd (parentOf_ofGraph graph id) hlink
  all_goals simp [ofGraph]

section

variable [Weight W]

/-- A merge of two different current clusters is recorded as it should be. -/
theorem Recorded.merge {leafCount : Nat} {clusters : Clusters W}
    (hrec : Recorded leafCount clusters) {edge : Edge W}
    (hsource : edge.source ∈ clusters.current) (htarget : edge.target ∈ clusters.current)
    (hne : edge.source ≠ edge.target) : Recorded leafCount (clusters.merge edge) := by
  obtain ⟨hsourceLt, hsourceRoot⟩ := mem_current.mp hsource
  obtain ⟨htargetLt, htargetRoot⟩ := mem_current.mp htarget
  have hparent := parentOf_merge hsourceLt htargetLt
  have hmerges : (clusters.merge edge).merges = clusters.merges.push
      { node := clusters.parent.size, left := edge.source, right := edge.target,
        height := edge.weight } := rfl
  -- a part of an earlier merge is no current cluster, so its link is not changed
  have hkept : ∀ id, clusters.parentOf id ≠ id →
      (clusters.merge edge).parentOf id = clusters.parentOf id := by
    intro id hlink
    rw [hparent, if_neg]
    rintro (rfl | rfl)
    · exact hlink hsourceRoot
    · exact hlink htargetRoot
  constructor
  · simp [hrec.size_parent, Nat.add_assoc]
  · simp [hrec.size_population]
  · intro index merge hmerge
    rw [hmerges, Array.getElem?_push] at hmerge
    split at hmerge
    · next hindex =>
        obtain rfl := Option.some.inj hmerge
        rw [hindex]
        exact hrec.size_parent
    · exact hrec.node_eq index merge hmerge
  · intro merge hmerge
    rw [hmerges, Array.mem_push] at hmerge
    rcases hmerge with hmerge | rfl
    · exact hrec.parts_ne merge hmerge
    · exact hne
  · intro merge hmerge
    rw [hmerges, Array.mem_push] at hmerge
    rcases hmerge with hmerge | rfl
    · exact hrec.parts_lt merge hmerge
    · exact ⟨hsourceLt, htargetLt⟩
  · intro merge hmerge
    rw [hmerges, Array.mem_push] at hmerge
    rcases hmerge with hmerge | rfl
    · obtain ⟨hleft, hright⟩ := hrec.parent_parts merge hmerge
      obtain ⟨hleftLt, hrightLt⟩ := hrec.parts_lt merge hmerge
      rw [hkept _ (by omega), hkept _ (by omega)]
      exact ⟨hleft, hright⟩
    · simp [hparent]
  · intro id hlink
    simp only [hmerges, Array.mem_push]
    by_cases hpart : id = edge.source ∨ id = edge.target
    · refine ⟨_, .inr rfl, ?_, hpart⟩
      rw [hparent, if_pos hpart]
    · rw [hparent, if_neg hpart] at hlink ⊢
      obtain ⟨merge, hmerge, hpart⟩ := hrec.part_of id hlink
      exact ⟨merge, .inl hmerge, hpart⟩

end

/-! ## The partition of the leaves -/

/-- The current clusters partition the leaves by `owner`, and every cluster
counts its leaves. -/
structure Partitioned (leafCount : Nat) (clusters : Clusters W) : Prop where
  members_leaf : ∀ id < leafCount, clusters.members id = {id}
  members_node : ∀ merge ∈ clusters.merges,
    clusters.members merge.node = clusters.members merge.left ∪ clusters.members merge.right
  mem_members_iff : ∀ id ∈ clusters.current, ∀ leaf,
    leaf ∈ clusters.members id ↔ leaf < leafCount ∧ clusters.owner leaf = id
  owner_mem : ∀ leaf < leafCount, clusters.owner leaf ∈ clusters.current
  population_eq : ∀ id < clusters.parent.size,
    clusters.populationOf id = (clusters.members id).card
  card_current : clusters.current.card + clusters.merges.size = leafCount

/-- At the start every item is a cluster of its own. -/
theorem partitioned_ofGraph (graph : Graph W) :
    Partitioned graph.nodeCount (ofGraph graph) := by
  constructor
  · exact fun id _ => members_ofGraph graph id
  · intro merge hmerge
    simp [ofGraph] at hmerge
  · intro id hid leaf
    rw [current_ofGraph, Finset.mem_range] at hid
    rw [members_ofGraph, owner_ofGraph, Finset.mem_singleton]
    constructor
    · rintro rfl
      exact ⟨hid, rfl⟩
    · exact fun hleaf => hleaf.2
  · intro leaf hleaf
    simpa using hleaf
  · intro id hid
    rw [size_parent_ofGraph] at hid
    simp [populationOf, ofGraph, hid, members]
  · have hmerges : (ofGraph graph).merges.size = 0 := rfl
    simp [hmerges]

/-- Different current clusters have no item in common. -/
theorem Partitioned.disjoint_members {leafCount : Nat} {clusters : Clusters W}
    (hpart : Partitioned leafCount clusters) {left right : Nat}
    (hleft : left ∈ clusters.current) (hright : right ∈ clusters.current)
    (hne : left ≠ right) : Disjoint (clusters.members left) (clusters.members right) := by
  rw [Finset.disjoint_left]
  intro leaf hmem hmem'
  rw [hpart.mem_members_iff left hleft] at hmem
  rw [hpart.mem_members_iff right hright] at hmem'
  exact hne (hmem.2.symm.trans hmem'.2)

/-- Two current clusters have no more items than there are. -/
theorem Partitioned.populationOf_add_le {leafCount : Nat} {clusters : Clusters W}
    (hpart : Partitioned leafCount clusters) {left right : Nat} (hleft : left ∈ clusters.current)
    (hright : right ∈ clusters.current) (hne : left ≠ right) :
    clusters.populationOf left + clusters.populationOf right ≤ leafCount := by
  have hsubset : ∀ id ∈ clusters.current, clusters.members id ⊆ Finset.range leafCount :=
    fun id hid leaf hleaf => Finset.mem_range.mpr ((hpart.mem_members_iff id hid leaf).mp hleaf).1
  calc clusters.populationOf left + clusters.populationOf right
      = (clusters.members left ∪ clusters.members right).card := by
        rw [Finset.card_union_of_disjoint (hpart.disjoint_members hleft hright hne),
          hpart.population_eq left (mem_current.mp hleft).1,
          hpart.population_eq right (mem_current.mp hright).1]
    _ ≤ (Finset.range leafCount).card :=
        Finset.card_le_card (Finset.union_subset (hsubset left hleft) (hsubset right hright))
    _ = leafCount := Finset.card_range leafCount

theorem Partitioned.owner_lt {leafCount : Nat} {clusters : Clusters W}
    (hpart : Partitioned leafCount clusters) {leaf : Nat} (hleaf : leaf < leafCount) :
    clusters.owner leaf < clusters.parent.size :=
  (mem_current.mp (hpart.owner_mem leaf hleaf)).1

/-- No cluster is empty. -/
theorem Partitioned.members_nonempty {leafCount : Nat} {clusters : Clusters W}
    (hpart : Partitioned leafCount clusters) (hrec : Recorded leafCount clusters) {id : Nat}
    (hid : id < clusters.parent.size) : (clusters.members id).Nonempty := by
  refine hrec.induction (motive := fun id => (clusters.members id).Nonempty) ?_ ?_ hid
  · intro id hleaf
    rw [hpart.members_leaf id hleaf]
    exact Finset.singleton_nonempty id
  · intro merge hmerge hleft _
    rw [hpart.members_node merge hmerge]
    exact hleft.inl

/-- No cluster is empty, so shares are never divided by zero. -/
theorem Partitioned.populationOf_pos {leafCount : Nat} {clusters : Clusters W}
    (hpart : Partitioned leafCount clusters) (hrec : Recorded leafCount clusters) {id : Nat}
    (hid : id < clusters.parent.size) : 0 < clusters.populationOf id := by
  rw [hpart.population_eq id hid, Finset.card_pos]
  exact hpart.members_nonempty hrec hid

/-- Two current clusters with the same leaves are the same one. -/
theorem Partitioned.members_injOn {leafCount : Nat} {clusters : Clusters W}
    (hpart : Partitioned leafCount clusters) (hrec : Recorded leafCount clusters) :
    Set.InjOn clusters.members clusters.current := by
  intro left hleft right hright heq
  by_contra hne
  have hself := hpart.disjoint_members hleft hright hne
  rw [← heq, disjoint_self, Finset.bot_eq_empty] at hself
  exact (hpart.members_nonempty hrec (mem_current.mp hleft).1).ne_empty hself

section

variable [Weight W]

theorem Partitioned.mem_members_merge_iff {leafCount : Nat} {clusters : Clusters W}
    (hpart : Partitioned leafCount clusters) {edge : Edge W}
    (hsource : edge.source ∈ clusters.current) (htarget : edge.target ∈ clusters.current)
    {id : Nat} (hid : id ∈ (clusters.merge edge).current) (leaf : Nat) :
    leaf ∈ (clusters.merge edge).members id ↔
      leaf < leafCount ∧ (clusters.merge edge).owner leaf = id := by
  rw [current_merge hsource htarget, Finset.mem_insert] at hid
  rw [owner_merge]
  rcases hid with rfl | hid
  · rw [members_merge_self, Finset.mem_union, hpart.mem_members_iff _ hsource,
      hpart.mem_members_iff _ htarget, ← and_or_left]
    refine and_congr_right fun hleaf => ?_
    have howner := hpart.owner_lt hleaf
    rw [heir]
    split
    · next hparts => simpa using hparts
    · next hparts => simpa [hparts] using howner.ne
  · simp only [Finset.mem_erase] at hid
    obtain ⟨hidTarget, hidSource, hid⟩ := hid
    have hidLt := (mem_current.mp hid).1
    rw [members_merge_of_lt clusters edge hidLt, hpart.mem_members_iff id hid,
      heir_eq_iff_of_ne hidLt.ne]
    refine and_congr_right fun _ => ⟨?_, And.left⟩
    rintro rfl
    exact ⟨rfl, hidSource, hidTarget⟩

/-- A merge leaves one current cluster less. -/
theorem card_current_merge {clusters : Clusters W} {edge : Edge W}
    (hsource : edge.source ∈ clusters.current) (htarget : edge.target ∈ clusters.current)
    (hne : edge.source ≠ edge.target) :
    (clusters.merge edge).current.card + 1 = clusters.current.card := by
  have hfresh : clusters.parent.size ∉ clusters.current := by
    simp [mem_current]
  have htarget' : edge.target ∈ clusters.current.erase edge.source :=
    Finset.mem_erase.mpr ⟨hne.symm, htarget⟩
  rw [current_merge hsource htarget, Finset.card_insert_of_notMem (by simp [hfresh]),
    Finset.card_erase_add_one htarget', Finset.card_erase_add_one hsource]

/-- Merging two different current clusters keeps the partition. -/
theorem Partitioned.merge {leafCount : Nat} {clusters : Clusters W}
    (hpart : Partitioned leafCount clusters) (hrec : Recorded leafCount clusters)
    {edge : Edge W} (hsource : edge.source ∈ clusters.current)
    (htarget : edge.target ∈ clusters.current) (hne : edge.source ≠ edge.target) :
    Partitioned leafCount (clusters.merge edge) := by
  have hsourceLt := (mem_current.mp hsource).1
  have htargetLt := (mem_current.mp htarget).1
  have hkept : ∀ id < clusters.parent.size,
      (clusters.merge edge).members id = clusters.members id :=
    fun id hid => members_merge_of_lt clusters edge hid
  constructor
  case members_leaf =>
    intro id hid
    have hsize := hrec.size_parent
    rw [hkept id (by omega), hpart.members_leaf id hid]
  case members_node =>
    intro merge hmerge
    rcases Array.mem_push.mp hmerge with hmerge | rfl
    · obtain ⟨hleft, hright⟩ := hrec.parts_lt merge hmerge
      have hnode := (hrec.node_bounds hmerge).2
      rw [hkept _ hnode, hkept _ (hleft.trans hnode), hkept _ (hright.trans hnode),
        hpart.members_node merge hmerge]
    · rw [members_merge_self, hkept _ hsourceLt, hkept _ htargetLt]
  case mem_members_iff => exact fun id hid => hpart.mem_members_merge_iff hsource htarget hid
  case owner_mem =>
    intro leaf hleaf
    rw [owner_merge]
    exact heir_mem_current_merge hsource htarget (hpart.owner_mem leaf hleaf)
  case population_eq =>
    intro id hid
    rw [size_parent_merge] at hid
    rw [populationOf_merge, hrec.size_population]
    split
    · next hnode =>
        rw [hnode, members_merge_self,
          Finset.card_union_of_disjoint (hpart.disjoint_members hsource htarget hne),
          hpart.population_eq _ hsourceLt, hpart.population_eq _ htargetLt]
    · next hnode =>
        have hidLt : id < clusters.parent.size := by omega
        rw [hkept id hidLt, hpart.population_eq id hidLt]
  case card_current =>
    have hcard := hpart.card_current
    have hless := card_current_merge hsource htarget hne
    rw [size_merges_merge]
    omega

end

end AverageLinkage.Clusters
