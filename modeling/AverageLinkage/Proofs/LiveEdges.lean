import Mathlib
import AverageLinkage.Linkage.Clusters

/-!
# The live edges after a merge

A merge drops the edges between its two parts, moves the other ends of the parts
to the new cluster and joins parallel edges there.  This module says what each
of these steps does to the weights between two given clusters.  Whether an edge
leads from one cluster to another one is decided by the moved ends alone.
-/

namespace AverageLinkage

namespace Edge

variable {W : Type}

def leads (source target : Nat) (edge : Edge W) : Bool :=
  edge.source == source && edge.target == target

@[simp]
theorem leads_iff {source target : Nat} {edge : Edge W} :
    edge.leads source target = true ↔ edge.source = source ∧ edge.target = target := by
  simp [leads]

theorem leads_reweigh (source target : Nat) (edge : Edge W) (weight : W) :
    leads source target { edge with weight } = edge.leads source target := rfl

theorem parallel_eq_leads (edge : Edge W) :
    edge.parallel = leads edge.source edge.target := by
  funext other
  simp only [parallel, leads]
  rw [Bool.beq_comm, Bool.beq_comm (a := edge.target)]

theorem touches_of_leads {node source target : Nat} {edge : Edge W}
    (hleads : edge.leads source target = true) (hnode : source = node ∨ target = node) :
    edge.touches node = true := by
  obtain ⟨rfl, rfl⟩ := leads_iff.mp hleads
  simpa [touches] using hnode

end Edge

namespace Clusters

variable {W : Type}

def weightsBetween (source target : Nat) (edges : List (Edge W)) : List W :=
  (edges.filter (Edge.leads source target)).map Edge.weight

@[simp]
theorem weightsBetween_nil (source target : Nat) :
    weightsBetween source target ([] : List (Edge W)) = [] := rfl

theorem weightsBetween_cons (source target : Nat) (edge : Edge W) (edges : List (Edge W)) :
    weightsBetween source target (edge :: edges) =
      if edge.leads source target = true then edge.weight :: weightsBetween source target edges
      else weightsBetween source target edges := by
  simp only [weightsBetween, List.filter_cons]
  split <;> rfl

theorem weightsBetween_ne_nil_iff {source target : Nat} {edges : List (Edge W)} :
    weightsBetween source target edges ≠ [] ↔
      ∃ edge ∈ edges, edge.source = source ∧ edge.target = target := by
  simp [weightsBetween, List.filter_eq_nil_iff]

section

variable [Weight W]

/-! ## Joining parallel edges -/

/-- A single weight for all of them, added up from the left; none for none. -/
def bundle : List W → List W
  | [] => []
  | first :: rest => [rest.foldl (· + ·) first]

@[simp]
theorem bundle_eq_nil_iff {weights : List W} : bundle weights = [] ↔ weights = [] := by
  cases weights <;> simp [bundle]

theorem length_bundle_le (weights : List W) : (bundle weights).length ≤ 1 := by
  cases weights <;> simp [bundle]

/-- The weight of a bundle is the same from each of its edges. -/
theorem bundle_weightsBetween {edges : List (Edge W)} {edge : Edge W} (hedge : edge ∈ edges) :
    bundle (weightsBetween edge.source edge.target edges) = [bundleWeight edges edge] := by
  have hmem : edge ∈ edges.filter (Edge.leads edge.source edge.target) := by
    simpa using hedge
  rw [bundleWeight, weightsBetween, Edge.parallel_eq_leads]
  cases hfilter : edges.filter (Edge.leads edge.source edge.target) with
  | nil => simp [hfilter] at hmem
  | cons first rest => simp [bundle, List.foldl_map]

/-- Nothing is kept of a bundle that has an edge among those already kept. -/
theorem weightsBetween_keepFirst_of_kept {node source target : Nat}
    (hnode : source = node ∨ target = node) (incident : List (Edge W))
    {kept : List (Edge W)} (hkept : kept.any (Edge.leads source target) = true)
    (edges : List (Edge W)) :
    weightsBetween source target (keepFirst node incident kept edges) = [] := by
  induction edges generalizing kept with
  | nil => rfl
  | cons edge rest ih =>
      rw [keepFirst]
      by_cases hleads : edge.leads source target = true
      · obtain ⟨rfl, rfl⟩ := Edge.leads_iff.mp hleads
        rw [if_pos (Edge.touches_of_leads hleads hnode), Edge.parallel_eq_leads, if_pos hkept]
        exact ih hkept
      · split
        · split
          · exact ih hkept
          · rw [weightsBetween_cons, Edge.leads_reweigh, if_neg hleads]
            exact ih (by simp [hkept])
        · rw [weightsBetween_cons, if_neg hleads]
          exact ih hkept

/-- Of a bundle that is met for the first time the first edge is kept, with the
weight of the bundle. -/
theorem weightsBetween_keepFirst {node source target : Nat}
    (hnode : source = node ∨ target = node) {incident kept edges : List (Edge W)}
    (hkept : kept.any (Edge.leads source target) = false)
    (hincident : ∀ edge ∈ edges, edge.touches node = true → edge ∈ incident) :
    weightsBetween source target (keepFirst node incident kept edges) =
      if weightsBetween source target edges = [] then []
      else bundle (weightsBetween source target incident) := by
  induction edges generalizing kept with
  | nil => rfl
  | cons edge rest ih =>
      have hrest : ∀ other ∈ rest, other.touches node = true → other ∈ incident :=
        fun other hother => hincident other (List.mem_cons_of_mem edge hother)
      rw [keepFirst]
      by_cases hleads : edge.leads source target = true
      · have htouches := Edge.touches_of_leads hleads hnode
        have hmem := hincident edge List.mem_cons_self htouches
        obtain ⟨rfl, rfl⟩ := Edge.leads_iff.mp hleads
        rw [if_pos htouches, Edge.parallel_eq_leads, if_neg (by simp [hkept]),
          weightsBetween_cons, Edge.leads_reweigh, if_pos hleads,
          weightsBetween_keepFirst_of_kept hnode incident (by simp), weightsBetween_cons,
          if_pos hleads, if_neg (by simp), bundle_weightsBetween hmem]
      · rw [weightsBetween_cons source target edge rest, if_neg hleads]
        split
        · split
          · exact ih hkept hrest
          · rw [weightsBetween_cons, Edge.leads_reweigh, if_neg hleads]
            exact ih (by simp [hkept, hleads]) hrest
        · rw [weightsBetween_cons, if_neg hleads]
          exact ih hkept hrest

/-- Edges away from the new cluster are left as they are. -/
theorem weightsBetween_keepFirst_of_ne {node source target : Nat} (hsource : source ≠ node)
    (htarget : target ≠ node) (incident kept edges : List (Edge W)) :
    weightsBetween source target (keepFirst node incident kept edges) =
      weightsBetween source target edges := by
  induction edges generalizing kept with
  | nil => rfl
  | cons edge rest ih =>
      rw [keepFirst]
      by_cases htouches : edge.touches node = true
      · have hleads : ¬edge.leads source target = true := by
          rintro hleads
          obtain ⟨rfl, rfl⟩ := Edge.leads_iff.mp hleads
          simp [Edge.touches, hsource, htarget] at htouches
        rw [if_pos htouches, weightsBetween_cons source target edge rest, if_neg hleads]
        split
        · exact ih kept
        · rw [weightsBetween_cons, Edge.leads_reweigh, if_neg hleads]
          exact ih (edge :: kept)
      · rw [if_neg htouches, weightsBetween_cons, weightsBetween_cons, ih]

/-- Joining parallel edges at a cluster leaves one edge of each bundle there and
all edges elsewhere. -/
theorem weightsBetween_bundleAt (node source target : Nat) (edges : List (Edge W)) :
    weightsBetween source target (bundleAt node edges) =
      if source = node ∨ target = node then bundle (weightsBetween source target edges)
      else weightsBetween source target edges := by
  rw [bundleAt]
  split
  · next hnode =>
      have hincident : weightsBetween source target (edges.filter (·.touches node)) =
          weightsBetween source target edges := by
        simp only [weightsBetween, List.filter_filter]
        congr 1
        apply List.filter_congr
        intro edge _
        by_cases hleads : edge.leads source target = true
        · simp [hleads, Edge.touches_of_leads hleads hnode]
        · simp [hleads]
      rw [weightsBetween_keepFirst hnode (by simp) (by simp +contextual), hincident]
      split
      · next hnil => rw [hnil, bundle]
      · rfl
  · next hnode =>
      obtain ⟨hsource, htarget⟩ := not_or.mp hnode
      exact weightsBetween_keepFirst_of_ne hsource htarget _ _ _

/-! ## Moving the ends -/

/-- The cluster in whose place `cluster` is found once `left` and `right` are
replaced by `node`. -/
def heir (left right node cluster : Nat) : Nat :=
  if cluster = left ∨ cluster = right then node else cluster

theorem heir_of_ne {left right node cluster : Nat} (hleft : cluster ≠ left)
    (hright : cluster ≠ right) : heir left right node cluster = cluster := by
  simp [heir, hleft, hright]

@[simp]
theorem heir_left (left right node : Nat) : heir left right node left = node := by
  simp [heir]

@[simp]
theorem heir_right (left right node : Nat) : heir left right node right = node := by
  simp [heir]

/-- Unless the new cluster is meant, only a cluster that was not replaced keeps
its place. -/
theorem heir_eq_iff_of_ne {left right node cluster place : Nat} (hplace : place ≠ node) :
    heir left right node cluster = place ↔
      cluster = place ∧ cluster ≠ left ∧ cluster ≠ right := by
  rw [heir]
  split <;> grind

theorem Fusion.fst_move (fusion : Fusion W) (cluster : Nat) (weight : W) :
    (fusion.move cluster weight).1 =
      heir fusion.left fusion.right fusion.node cluster := by
  simp only [Fusion.move, heir]
  grind

theorem Fusion.move_of_ne (fusion : Fusion W) {cluster : Nat} (weight : W)
    (hleft : cluster ≠ fusion.left) (hright : cluster ≠ fusion.right) :
    fusion.move cluster weight = (cluster, weight) := by
  simp [Fusion.move, hleft, hright]

@[simp]
theorem Fusion.source_redirect (fusion : Fusion W) (edge : Edge W) :
    (fusion.redirect edge).source =
      heir fusion.left fusion.right fusion.node edge.source :=
  fusion.fst_move edge.source edge.weight

@[simp]
theorem Fusion.target_redirect (fusion : Fusion W) (edge : Edge W) :
    (fusion.redirect edge).target =
      heir fusion.left fusion.right fusion.node edge.target :=
  fusion.fst_move edge.target (fusion.move edge.source edge.weight).2

@[simp]
theorem left_fusion (clusters : Clusters W) (edge : Edge W) :
    (clusters.fusion edge).left = edge.source := rfl

@[simp]
theorem right_fusion (clusters : Clusters W) (edge : Edge W) :
    (clusters.fusion edge).right = edge.target := rfl

@[simp]
theorem node_fusion (clusters : Clusters W) (edge : Edge W) :
    (clusters.fusion edge).node = clusters.parent.size := rfl

theorem edges_merge (clusters : Clusters W) (edge : Edge W) :
    (clusters.merge edge).edges = (clusters.fusion edge).apply clusters.edges := rfl

/-- An edge leads from one cluster to another one after a merge exactly if one
led between clusters whose places these take, and did not join the two parts. -/
theorem exists_mem_apply_iff {fusion : Fusion W} {edges : List (Edge W)} {source target : Nat} :
    (∃ edge ∈ fusion.apply edges, edge.source = source ∧ edge.target = target) ↔
      ∃ edge ∈ edges, edge.joins fusion.left fusion.right = false ∧
        heir fusion.left fusion.right fusion.node edge.source = source ∧
        heir fusion.left fusion.right fusion.node edge.target = target := by
  have hbundle : weightsBetween source target (fusion.apply edges) ≠ [] ↔
      weightsBetween source target
        ((edges.filter fun edge => !edge.joins fusion.left fusion.right).map fusion.redirect) ≠
          [] := by
    rw [Fusion.apply, weightsBetween_bundleAt]
    split
    · exact not_congr bundle_eq_nil_iff
    · rfl
  rw [← weightsBetween_ne_nil_iff, hbundle, weightsBetween_ne_nil_iff]
  simp only [List.mem_map, List.mem_filter, Bool.not_eq_eq_eq_not, Bool.not_true]
  constructor
  · rintro ⟨_, ⟨edge, ⟨hedge, hjoins⟩, rfl⟩, hsource, htarget⟩
    exact ⟨edge, hedge, hjoins, by simpa using hsource, by simpa using htarget⟩
  · rintro ⟨edge, hedge, hjoins, hsource, htarget⟩
    exact ⟨_, ⟨edge, ⟨hedge, hjoins⟩, rfl⟩, by simpa using hsource, by simpa using htarget⟩

/-- Between clusters that a merge does not touch nothing changes. -/
theorem weightsBetween_apply_of_ne (fusion : Fusion W) (edges : List (Edge W))
    {source target : Nat} (hsource : source ≠ fusion.node) (htarget : target ≠ fusion.node)
    (hsourceLeft : source ≠ fusion.left) (hsourceRight : source ≠ fusion.right)
    (htargetLeft : target ≠ fusion.left) (htargetRight : target ≠ fusion.right) :
    weightsBetween source target (fusion.apply edges) = weightsBetween source target edges := by
  rw [Fusion.apply, weightsBetween_bundleAt, if_neg (by simp [hsource, htarget])]
  simp only [weightsBetween, List.filter_map, List.filter_filter, List.map_map]
  have hfilter : edges.filter (fun edge =>
      (Edge.leads source target ∘ fusion.redirect) edge &&
        !edge.joins fusion.left fusion.right) = edges.filter (Edge.leads source target) := by
    apply List.filter_congr
    intro edge _
    rw [Bool.eq_iff_iff]
    simp only [Function.comp_apply, Bool.and_eq_true, Edge.leads_iff, Fusion.source_redirect,
      Fusion.target_redirect, heir_eq_iff_of_ne hsource, heir_eq_iff_of_ne htarget]
    constructor
    · rintro ⟨⟨⟨hsame, _⟩, hsame', _⟩, _⟩
      exact ⟨hsame, hsame'⟩
    · rintro ⟨rfl, rfl⟩
      simp [Edge.joins, *]
  rw [hfilter]
  apply List.map_congr_left
  intro edge hedge
  obtain ⟨rfl, rfl⟩ := Edge.leads_iff.mp (List.mem_filter.mp hedge).2
  simp only [Function.comp_apply, Fusion.redirect]
  rw [fusion.move_of_ne edge.weight hsourceLeft hsourceRight,
    fusion.move_of_ne edge.weight htargetLeft htargetRight]

/-- No edge leads twice between the same clusters, in the same direction. -/
def Simple (edges : List (Edge W)) : Prop :=
  ∀ source target, (weightsBetween source target edges).length ≤ 1

omit [Weight W] in
/-- Without parallel edges the only weight between the ends of an edge is its own. -/
theorem Simple.weightsBetween_eq {edges : List (Edge W)} (hsimple : Simple edges) {edge : Edge W}
    (hedge : edge ∈ edges) : weightsBetween edge.source edge.target edges = [edge.weight] := by
  have hmem : edge.weight ∈ weightsBetween edge.source edge.target edges :=
    List.mem_map_of_mem (List.mem_filter.mpr ⟨hedge, by simp⟩)
  have hlength := hsimple edge.source edge.target
  match hweights : weightsBetween edge.source edge.target edges with
  | [] => simp [hweights] at hmem
  | [weight] =>
      rw [hweights, List.mem_singleton] at hmem
      rw [hmem]
  | _ :: _ :: _ => simp [hweights] at hlength

/-- Away from the new cluster a merge adds no edge. -/
theorem length_weightsBetween_apply_le (fusion : Fusion W) (edges : List (Edge W))
    {source target : Nat} (hsource : source ≠ fusion.node) (htarget : target ≠ fusion.node) :
    (weightsBetween source target (fusion.apply edges)).length ≤
      (weightsBetween source target edges).length := by
  by_cases hparts : source ≠ fusion.left ∧ source ≠ fusion.right ∧
      target ≠ fusion.left ∧ target ≠ fusion.right
  · obtain ⟨hsourceLeft, hsourceRight, htargetLeft, htargetRight⟩ := hparts
    rw [weightsBetween_apply_of_ne fusion edges hsource htarget hsourceLeft hsourceRight
      htargetLeft htargetRight]
  · -- no edge is left at a part of the merge
    have hnil : weightsBetween source target (fusion.apply edges) = [] := by
      by_contra hne
      obtain ⟨edge, _, _, hs, ht⟩ :=
        exists_mem_apply_iff.mp (weightsBetween_ne_nil_iff.mp hne)
      rw [heir_eq_iff_of_ne hsource] at hs
      rw [heir_eq_iff_of_ne htarget] at ht
      obtain ⟨rfl, hs⟩ := hs
      obtain ⟨rfl, ht⟩ := ht
      exact hparts ⟨hs.1, hs.2, ht.1, ht.2⟩
    simp [hnil]

/-- At the clusters from `first` on no edge leads twice between the same clusters,
in the same direction. -/
def SimpleFrom (first : Nat) (edges : List (Edge W)) : Prop :=
  ∀ source target, first ≤ source ∨ first ≤ target →
    (weightsBetween source target edges).length ≤ 1

/-- Edges that come to lie side by side at the new cluster are joined, so a merge
never makes two edges between the same clusters. -/
theorem SimpleFrom.apply {first : Nat} {fusion : Fusion W} {edges : List (Edge W)}
    (hsimple : SimpleFrom first edges) : SimpleFrom first (fusion.apply edges) := by
  intro source target hfirst
  by_cases hnode : source = fusion.node ∨ target = fusion.node
  · rw [Fusion.apply, weightsBetween_bundleAt, if_pos hnode]
    exact length_bundle_le _
  · obtain ⟨hsource, htarget⟩ := not_or.mp hnode
    exact (length_weightsBetween_apply_le fusion edges hsource htarget).trans
      (hsimple source target hfirst)

/-- A merge makes no parallel edges. -/
theorem Simple.apply {fusion : Fusion W} {edges : List (Edge W)} (hsimple : Simple edges) :
    Simple (fusion.apply edges) := by
  have hfrom : SimpleFrom 0 edges := fun source target _ => hsimple source target
  exact fun source target => hfrom.apply source target (.inl (Nat.zero_le source))

end

end Clusters

end AverageLinkage
