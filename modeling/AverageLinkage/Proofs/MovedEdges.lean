import Mathlib
import AverageLinkage.Proofs.DenseLinkage

/-!
# Edges that a merge moves

What leads from the new cluster of a merge, or to it, comes from its two parts.  If no two
edges are parallel, at most one comes from each part, so no more than two are joined.  The
sum of two weights does not hang on their order.  So a merge leaves the same edges if they
are listed in another order, and it leaves reversed edges if all of them are reversed.
-/

namespace AverageLinkage.Clusters

variable {W : Type}

/-! ## Edges as a collection -/

theorem weightsBetween_reverse (source target : Nat) (edges : List (Edge W)) :
    weightsBetween source target (edges.map Edge.reverse) = weightsBetween target source edges := by
  have hleads : Edge.leads source target ∘ Edge.reverse =
      (Edge.leads target source : Edge W → Bool) := by
    funext edge
    exact Bool.and_comm _ _
  rw [weightsBetween, weightsBetween, List.filter_map, hleads, List.map_map]
  rfl

/-- An edge is listed as often as its weight is between its two ends. -/
theorem count_eq_count_weightsBetween [DecidableEq W] (edge : Edge W) (edges : List (Edge W)) :
    Multiset.count edge edges =
      Multiset.count edge.weight (weightsBetween edge.source edge.target edges) := by
  induction edges with
  | nil => rfl
  | cons first rest ih =>
      rw [← Multiset.cons_coe, Multiset.count_cons, ih, weightsBetween_cons]
      by_cases hleads : first.leads edge.source edge.target = true
      · obtain ⟨hsource, htarget⟩ := Edge.leads_iff.mp hleads
        have hsame : edge = first ↔ edge.weight = first.weight := by
          rw [Edge.mk.injEq, hsource, htarget]
          simp
        rw [if_pos hleads, ← Multiset.cons_coe, Multiset.count_cons]
        simp only [hsame]
      · have hne : edge ≠ first := by
          rintro rfl
          simp at hleads
        rw [if_neg hleads, if_neg hne, Nat.add_zero]

/-- Edges are the same in another order if the weights between any two clusters are. -/
theorem perm_of_weightsBetween {edges others : List (Edge W)}
    (hweights : ∀ source target,
      (weightsBetween source target edges).Perm (weightsBetween source target others)) :
    edges.Perm others := by
  classical
  rw [← Multiset.coe_eq_coe]
  ext edge
  rw [count_eq_count_weightsBetween, count_eq_count_weightsBetween,
    Multiset.coe_eq_coe.mpr (hweights edge.source edge.target)]

/-- A list of at most one weight has no other order. -/
theorem eq_of_perm_of_length_le_one {weights others : List W} (hperm : weights.Perm others)
    (hshort : weights.length ≤ 1) : weights = others := by
  match weights with
  | [] => exact hperm.nil_eq
  | [weight] => exact List.singleton_perm.mp hperm

/-! ## Fusions that fit -/

/-- A fusion replaces two different clusters by one that no edge touches yet, and no edge
is a loop. -/
structure Fusion.Fits (fusion : Fusion W) (edges : List (Edge W)) : Prop where
  parts_ne : fusion.left ≠ fusion.right
  left_ne : fusion.left ≠ fusion.node
  right_ne : fusion.right ≠ fusion.node
  ends_ne : ∀ edge ∈ edges, edge.source ≠ edge.target
  source_ne : ∀ edge ∈ edges, edge.source ≠ fusion.node
  target_ne : ∀ edge ∈ edges, edge.target ≠ fusion.node

/-- A fusion neither replaces nor forms the cluster. -/
def Fusion.Spares (fusion : Fusion W) (cluster : Nat) : Prop :=
  cluster ≠ fusion.left ∧ cluster ≠ fusion.right ∧ cluster ≠ fusion.node

theorem Fusion.Fits.reverse {fusion : Fusion W} {edges : List (Edge W)}
    (hfits : fusion.Fits edges) : fusion.Fits (edges.map Edge.reverse) := by
  refine ⟨hfits.parts_ne, hfits.left_ne, hfits.right_ne, ?_, ?_, ?_⟩
  · simpa [Edge.reverse] using fun edge hedge => (hfits.ends_ne edge hedge).symm
  · simpa [Edge.reverse] using hfits.target_ne
  · simpa [Edge.reverse] using hfits.source_ne

theorem Fusion.Fits.heir_cases {fusion : Fusion W} {edges : List (Edge W)}
    (hfits : fusion.Fits edges) (cluster : Nat) :
    heir fusion.left fusion.right fusion.node cluster = fusion.node ∨
      fusion.Spares (heir fusion.left fusion.right fusion.node cluster) := by
  have hleft := hfits.left_ne
  have hright := hfits.right_ne
  simp only [heir, Fusion.Spares]
  grind

section

variable [Weight W] {fusion : Fusion W} {edges : List (Edge W)}

/-- The fusions of a run fit. -/
theorem Invariant.fits {graph : Graph W} {clusters : Clusters W} (hinv : Invariant graph clusters)
    (hgraph : graph.Proper) {edge : Edge W} (hedge : edge ∈ clusters.edges) :
    (clusters.fusion edge).Fits clusters.edges := by
  have hlt : ∀ other ∈ clusters.edges, other.source < clusters.parent.size ∧
      other.target < clusters.parent.size :=
    fun other hother => hinv.live.ends_lt hgraph hinv.partitioned hother
  have hne : ∀ other ∈ clusters.edges, other.source ≠ other.target :=
    fun other hother => (hinv.live.exists_mem hother).1
  exact ⟨hne edge hedge, (hlt edge hedge).1.ne, (hlt edge hedge).2.ne, hne,
    fun other hother => (hlt other hother).1.ne, fun other hother => (hlt other hother).2.ne⟩

/-! ## Where moved edges come from -/

/-- The edges that a merge leaves, before parallel ones are joined. -/
def Fusion.moved (fusion : Fusion W) (edges : List (Edge W)) : List (Edge W) :=
  (edges.filter fun edge => !edge.joins fusion.left fusion.right).map fusion.redirect

/-- A merge moves the edges first and joins parallel ones then. -/
theorem Fusion.apply_eq_bundleAt (fusion : Fusion W) (edges : List (Edge W)) :
    fusion.apply edges = bundleAt fusion.node (fusion.moved edges) := rfl

/-- A moved edge leads from the new cluster or to it, or between two clusters that the
fusion spares. -/
theorem Fusion.Fits.moved_cases (hfits : fusion.Fits edges) {edge : Edge W}
    (hedge : edge ∈ fusion.moved edges) :
    (edge.source = fusion.node ∧ fusion.Spares edge.target) ∨
      (fusion.Spares edge.source ∧ edge.target = fusion.node) ∨
      (fusion.Spares edge.source ∧ fusion.Spares edge.target) := by
  obtain ⟨former, hformer, rfl⟩ := List.mem_map.mp hedge
  obtain ⟨hmem, hjoins⟩ := List.mem_filter.mp hformer
  have hne := heir_ne_of_not_joins (hfits.ends_ne former hmem) (hfits.source_ne former hmem)
    (hfits.target_ne former hmem) (by simpa using hjoins)
  rw [Fusion.source_redirect, Fusion.target_redirect]
  have hsource := hfits.heir_cases former.source
  have htarget := hfits.heir_cases former.target
  grind

theorem Fusion.weight_redirect_of_left {edge : Edge W} (hsource : edge.source = fusion.left)
    (htarget : fusion.Spares edge.target) :
    (fusion.redirect edge).weight = edge.weight * fusion.leftShare := by
  simp [Fusion.redirect, Fusion.move, hsource, htarget.1, htarget.2.1]

theorem Fusion.weight_redirect_of_right {edge : Edge W} (hparts : fusion.left ≠ fusion.right)
    (hsource : edge.source = fusion.right) (htarget : fusion.Spares edge.target) :
    (fusion.redirect edge).weight = edge.weight * fusion.rightShare := by
  simp [Fusion.redirect, Fusion.move, hsource, hparts.symm, htarget.1, htarget.2.1]

/-- What leads from the new cluster led from its two parts; the weights are reduced by
the shares. -/
theorem Fusion.Fits.weightsBetween_moved_source (hfits : fusion.Fits edges) {target : Nat}
    (htarget : fusion.Spares target) :
    (weightsBetween fusion.node target (fusion.moved edges)).Perm
      ((weightsBetween fusion.left target edges).map (· * fusion.leftShare) ++
        (weightsBetween fusion.right target edges).map (· * fusion.rightShare)) := by
  let leaving : List (Edge W) := edges.filter fun edge =>
    edge.leads fusion.left target || edge.leads fusion.right target
  have hmoved : weightsBetween fusion.node target (fusion.moved edges) =
      leaving.map fun edge => (fusion.redirect edge).weight := by
    rw [weightsBetween, Fusion.moved, List.filter_map, List.filter_filter, List.map_map]
    congr 1
    apply List.filter_congr
    intro edge hedge
    have hsource := hfits.source_ne edge hedge
    simp only [Fusion.Spares] at htarget
    simp only [Function.comp_apply, Edge.leads, Edge.joins, Fusion.source_redirect,
      Fusion.target_redirect, heir]
    grind
  have hleft : leaving.filter (Edge.leads fusion.left target) =
      edges.filter (Edge.leads fusion.left target) := by
    rw [List.filter_filter]
    apply List.filter_congr
    intro edge _
    cases edge.leads fusion.left target <;> rfl
  have hright : leaving.filter (fun edge => !edge.leads fusion.left target) =
      edges.filter (Edge.leads fusion.right target) := by
    rw [List.filter_filter]
    apply List.filter_congr
    intro edge _
    have hparts := hfits.parts_ne
    simp only [Edge.leads]
    grind
  calc weightsBetween fusion.node target (fusion.moved edges)
      = leaving.map fun edge => (fusion.redirect edge).weight := hmoved
    List.Perm _ ((leaving.filter (Edge.leads fusion.left target) ++
          leaving.filter fun edge => !edge.leads fusion.left target).map
            fun edge => (fusion.redirect edge).weight) :=
        ((List.filter_append_perm _ leaving).map _).symm
    _ = (weightsBetween fusion.left target edges).map (· * fusion.leftShare) ++
          (weightsBetween fusion.right target edges).map (· * fusion.rightShare) := by
        rw [List.map_append, hleft, hright, weightsBetween, weightsBetween, List.map_map,
          List.map_map]
        congr 1
        · apply List.map_congr_left
          intro edge hedge
          obtain ⟨hsource, rfl⟩ := Edge.leads_iff.mp (List.mem_filter.mp hedge).2
          exact Fusion.weight_redirect_of_left hsource htarget
        · apply List.map_congr_left
          intro edge hedge
          obtain ⟨hsource, rfl⟩ := Edge.leads_iff.mp (List.mem_filter.mp hedge).2
          exact Fusion.weight_redirect_of_right hfits.parts_ne hsource htarget

/-! ## Reversed edges -/

/-- The shares do not hang on the direction, since a moved edge has only one end at a
part of the merge. -/
theorem Fusion.redirect_reverse {edge : Edge W} (hne : edge.source ≠ edge.target)
    (hjoins : edge.joins fusion.left fusion.right = false) :
    fusion.redirect edge.reverse = (fusion.redirect edge).reverse := by
  simp only [Edge.joins, Bool.or_eq_false_iff, Bool.and_eq_false_iff, beq_eq_false_iff_ne]
    at hjoins
  simp only [Fusion.redirect, Fusion.move, Edge.reverse]
  grind

theorem Fusion.Fits.moved_reverse (hfits : fusion.Fits edges) :
    fusion.moved (edges.map Edge.reverse) = (fusion.moved edges).map Edge.reverse := by
  have hjoins : (fun edge : Edge W => !edge.joins fusion.left fusion.right) ∘ Edge.reverse =
      fun edge => !edge.joins fusion.left fusion.right := by
    funext edge
    simp only [Function.comp_apply, Edge.joins, Edge.reverse]
    grind
  rw [Fusion.moved, Fusion.moved, List.filter_map, hjoins, List.map_map, List.map_map]
  apply List.map_congr_left
  intro edge hedge
  obtain ⟨hmem, hkept⟩ := List.mem_filter.mp hedge
  exact Fusion.redirect_reverse (hfits.ends_ne edge hmem) (by simpa using hkept)

/-- What leads to the new cluster led to its two parts; the weights are reduced by the
shares. -/
theorem Fusion.Fits.weightsBetween_moved_target (hfits : fusion.Fits edges) {source : Nat}
    (hsource : fusion.Spares source) :
    (weightsBetween source fusion.node (fusion.moved edges)).Perm
      ((weightsBetween source fusion.left edges).map (· * fusion.leftShare) ++
        (weightsBetween source fusion.right edges).map (· * fusion.rightShare)) := by
  have hreverse := hfits.reverse.weightsBetween_moved_source hsource
  rwa [hfits.moved_reverse, weightsBetween_reverse, weightsBetween_reverse,
    weightsBetween_reverse] at hreverse

/-- A merge leaves reversed edges reversed. -/
theorem Fusion.Fits.apply_reverse (hfits : fusion.Fits edges) :
    (fusion.apply (edges.map Edge.reverse)).Perm ((fusion.apply edges).map Edge.reverse) := by
  apply perm_of_weightsBetween
  intro source target
  rw [weightsBetween_reverse, Fusion.apply_eq_bundleAt, Fusion.apply_eq_bundleAt,
    weightsBetween_bundleAt, weightsBetween_bundleAt, hfits.moved_reverse, weightsBetween_reverse]
  simp only [or_comm, List.Perm.refl]

/-! ## Edges in another order -/

/-- Edges between clusters that take no part in a merge keep their weights. -/
theorem Fusion.weightsBetween_moved_of_spares (fusion : Fusion W) (edges : List (Edge W))
    {source target : Nat} (hsource : fusion.Spares source) (htarget : fusion.Spares target) :
    weightsBetween source target (fusion.moved edges) = weightsBetween source target edges := by
  obtain ⟨hsourceLeft, hsourceRight, hsourceNode⟩ := hsource
  obtain ⟨htargetLeft, htargetRight, htargetNode⟩ := htarget
  rw [← weightsBetween_apply_of_ne fusion edges hsourceNode htargetNode hsourceLeft hsourceRight
    htargetLeft htargetRight, Fusion.apply_eq_bundleAt, weightsBetween_bundleAt,
    if_neg (by simp [hsourceNode, htargetNode])]

/-- Between two clusters there is nothing after a merge, or what came from the two parts with
reduced weights, or what was there before. -/
theorem Fusion.Fits.weightsBetween_moved_cases (hfits : fusion.Fits edges) (source target : Nat) :
    weightsBetween source target (fusion.moved edges) = [] ∨
      (∃ leftSource leftTarget rightSource rightTarget,
        (weightsBetween source target (fusion.moved edges)).Perm
          ((weightsBetween leftSource leftTarget edges).map (· * fusion.leftShare) ++
            (weightsBetween rightSource rightTarget edges).map (· * fusion.rightShare))) ∨
      weightsBetween source target (fusion.moved edges) = weightsBetween source target edges := by
  by_cases hnil : weightsBetween source target (fusion.moved edges) = []
  · exact .inl hnil
  obtain ⟨edge, hedge, rfl, rfl⟩ := weightsBetween_ne_nil_iff.mp hnil
  rcases hfits.moved_cases hedge with ⟨hsource, htarget⟩ | ⟨hsource, htarget⟩ | ⟨hsource, htarget⟩
  · rw [hsource]
    exact .inr (.inl ⟨_, _, _, _, hfits.weightsBetween_moved_source htarget⟩)
  · rw [htarget]
    exact .inr (.inl ⟨_, _, _, _, hfits.weightsBetween_moved_target hsource⟩)
  · exact .inr (.inr (fusion.weightsBetween_moved_of_spares edges hsource htarget))

/-- Without parallel edges at most two of the moved edges lie side by side. -/
theorem Fusion.Fits.length_weightsBetween_moved_le (hfits : fusion.Fits edges)
    (hsimple : Simple edges) (source target : Nat) :
    (weightsBetween source target (fusion.moved edges)).length ≤ 2 := by
  rcases hfits.weightsBetween_moved_cases source target with
    hnil | ⟨leftSource, leftTarget, rightSource, rightTarget, hperm⟩ | hkept
  · simp [hnil]
  · rw [hperm.length_eq, List.length_append, List.length_map, List.length_map]
    exact Nat.add_le_add (hsimple leftSource leftTarget) (hsimple rightSource rightTarget)
  · rw [hkept]
    exact (hsimple source target).trans one_le_two

/-- Two weights are added in either order. -/
theorem bundle_perm (hcomm : ∀ left right : W, left + right = right + left)
    {weights others : List W} (hperm : weights.Perm others) (hshort : weights.length ≤ 2) :
    bundle weights = bundle others := by
  induction hperm with
  | nil => rfl
  | cons weight hrest _ => rw [eq_of_perm_of_length_le_one hrest (by simpa using hshort)]
  | swap first second rest => simp only [bundle, List.foldl_cons, hcomm first second]
  | trans hfirst _ ihfirst ihsecond =>
      rw [ihfirst hshort, ihsecond (hfirst.length_eq ▸ hshort)]

/-- A merge leaves the same edges if they are listed in another order. -/
theorem Fusion.Fits.apply_perm (hcomm : ∀ left right : W, left + right = right + left)
    (hfits : fusion.Fits edges) (hsimple : Simple edges) {others : List (Edge W)}
    (hperm : edges.Perm others) : (fusion.apply edges).Perm (fusion.apply others) := by
  have hmoved : (fusion.moved edges).Perm (fusion.moved others) := (hperm.filter _).map _
  apply perm_of_weightsBetween
  intro source target
  have hweights : (weightsBetween source target (fusion.moved edges)).Perm
      (weightsBetween source target (fusion.moved others)) := (hmoved.filter _).map _
  rw [Fusion.apply_eq_bundleAt, Fusion.apply_eq_bundleAt, weightsBetween_bundleAt,
    weightsBetween_bundleAt]
  split
  · rw [bundle_perm hcomm hweights (hfits.length_weightsBetween_moved_le hsimple source target)]
  · exact hweights

/-- No run makes two edges parallel. -/
theorem simple_of_reached {graph : Graph W} (hsimple : Simple graph.edges) {clusters : Clusters W}
    (hreached : Reached (ofGraph graph) clusters) : Simple clusters.edges := by
  apply Reached.induction (motive := fun clusters => Simple clusters.edges) _ hsimple hreached
  intro clusters edge _ hsimple _
  exact hsimple.apply

end

end AverageLinkage.Clusters
