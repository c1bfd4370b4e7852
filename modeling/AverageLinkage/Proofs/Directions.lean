import Mathlib
import AverageLinkage.Proofs.EdgeLaws
import AverageLinkage.Proofs.MovedEdges

/-!
# The two directions of an edge

A graph that lists every pair of nodes once in each direction is the same if all its edges
are reversed.  Every merge of a run keeps this.  The two directions are moved and joined on
their own, at different places in the list and maybe in another order, but at most two
weights are added each time, so the only law of arithmetic behind it is that addition is
commutative.  Addition of doubles is, rounding included.
-/

namespace AverageLinkage

variable {W : Type}

@[simp]
theorem Edge.reverse_reverse (edge : Edge W) : edge.reverse.reverse = edge := rfl

namespace Clusters

/-- Reversing all edges changes at most their order. -/
def Symmetric (edges : List (Edge W)) : Prop :=
  (edges.map Edge.reverse).Perm edges

/-- Between two clusters the weights in the two directions are the same up to their order. -/
theorem Symmetric.weightsBetween_perm {edges : List (Edge W)} (hsymmetric : Symmetric edges)
    (source target : Nat) :
    (weightsBetween source target edges).Perm (weightsBetween target source edges) := by
  have hreversed : (weightsBetween source target (edges.map Edge.reverse)).Perm
      (weightsBetween source target edges) := (hsymmetric.filter _).map _
  rw [weightsBetween_reverse] at hreversed
  exact hreversed.symm

/-- The edges from one cluster to another one, by their weights. -/
theorem filter_leads_eq (source target : Nat) (edges : List (Edge W)) :
    edges.filter (Edge.leads source target) =
      (weightsBetween source target edges).map fun weight => ⟨source, target, weight⟩ := by
  calc edges.filter (Edge.leads source target)
      = (edges.filter (Edge.leads source target)).map id := (List.map_id _).symm
    _ = (edges.filter (Edge.leads source target)).map fun edge =>
          ⟨source, target, edge.weight⟩ := by
        apply List.map_congr_left
        intro edge hedge
        obtain ⟨rfl, rfl⟩ := Edge.leads_iff.mp (List.mem_filter.mp hedge).2
        rfl
    _ = (weightsBetween source target edges).map fun weight => ⟨source, target, weight⟩ := by
        rw [weightsBetween, List.map_map]
        rfl

/-- Without parallel edges, two clusters are joined by no edge or by one in each
direction. -/
theorem Symmetric.filter_leads_cases {edges : List (Edge W)} (hsymmetric : Symmetric edges)
    (hsimple : Simple edges) (left right : Nat) :
    (edges.filter (Edge.leads left right) = [] ∧ edges.filter (Edge.leads right left) = []) ∨
      ∃ weight, edges.filter (Edge.leads left right) = [⟨left, right, weight⟩] ∧
        edges.filter (Edge.leads right left) = [⟨right, left, weight⟩] := by
  have hsame := eq_of_perm_of_length_le_one (hsymmetric.weightsBetween_perm left right)
    (hsimple left right)
  rw [filter_leads_eq, filter_leads_eq right left, ← hsame]
  have hshort := hsimple left right
  match hweights : weightsBetween left right edges with
  | [] => exact .inl ⟨rfl, rfl⟩
  | [weight] => exact .inr ⟨weight, rfl, rfl⟩
  | _ :: _ :: _ => simp [hweights] at hshort

section

variable [Weight W]

/-- A merge keeps the edges symmetric as long as sums do not depend on the order of two terms. -/
theorem Symmetric.apply (hcomm : ∀ left right : W, left + right = right + left)
    {fusion : Fusion W} {edges : List (Edge W)} (hsymmetric : Symmetric edges)
    (hfits : fusion.Fits edges) (hsimple : Simple edges) : Symmetric (fusion.apply edges) := by
  have hother : (fusion.apply edges).Perm (fusion.apply (edges.map Edge.reverse)) :=
    hfits.apply_perm hcomm hsimple hsymmetric.symm
  exact (hother.trans hfits.apply_reverse).symm

/-- Symmetry of the graph lasts over the whole run. -/
theorem symmetric_of_reached (hcomm : ∀ left right : W, left + right = right + left)
    {graph : Graph W} (hgraph : graph.Proper) (hsimple : Simple graph.edges)
    (hsymmetric : Symmetric graph.edges) {clusters : Clusters W}
    (hreached : Reached (ofGraph graph) clusters) : Symmetric clusters.edges := by
  apply Reached.induction (motive := fun clusters => Symmetric clusters.edges) _ hsymmetric
    hreached
  intro clusters edge hreached hsymmetric hheaviest
  have hfits := (hreached.invariant hgraph).fits hgraph (mem_of_heaviest? hheaviest)
  exact hsymmetric.apply hcomm hfits (simple_of_reached hsimple hreached)

end

end Clusters

theorem Graph.Lists.symmetric {graph : Graph W} {pairs : List (Edge W)}
    (hlists : graph.Lists pairs) : Clusters.Symmetric graph.edges := by
  have hpairs : Clusters.Symmetric (pairs.flatMap fun pair => [pair, pair.reverse]) := by
    rw [Clusters.Symmetric, List.map_flatMap]
    exact List.Perm.flatMap_left pairs fun pair _ => List.Perm.swap _ _ _
  exact ((hlists.edges_perm.map _).trans hpairs).trans hlists.edges_perm.symm

/-! ## Doubles -/

namespace Binary64

open Float.Model (UnpackedFloat Format)

/-- Addition of doubles is commutative, undefined results included. -/
theorem unpacked_add_comm (format : Format) (left right : UnpackedFloat) :
    left.add format right = right.add format left := by
  cases left with
  | notANumber => cases right <;> rfl
  | infinity sign =>
      cases right with
      | infinity other => cases sign <;> cases other <;> rfl
      | notANumber => rfl
      | zero _ => rfl
      | finite _ _ _ _ => rfl
  | zero sign =>
      cases right with
      | zero other => cases sign <;> cases other <;> rfl
      | notANumber => rfl
      | infinity _ => rfl
      | finite _ _ _ _ => rfl
  | finite _ _ exponent _ =>
      cases right with
      | notANumber => rfl
      | infinity _ => rfl
      | zero _ => rfl
      | finite _ _ other _ =>
          -- both significands are brought to the lower exponent before they are added
          simp only [UnpackedFloat.add, min_comm exponent other, Int.add_comm]

end Binary64

/-- Doubles are added in either order, whatever they are. -/
theorem Weight.add_comm_double (left right : Float) : left + right = right + left := by
  have hadd : ∀ first second : Float, first + second = Float.ofModel (Float.Model.pack
      (first.toModel.unpack.add .binary64 second.toModel.unpack)) := fun _ _ => rfl
  rw [hadd, hadd, Binary64.unpacked_add_comm]

/-! ## Every run -/

/-- In every state of a run on a graph that lists every pair once in each direction, two
current clusters are joined by no live edge, or by exactly one in each direction, both with
the same weight.  Of the arithmetic of weights only the commutativity of addition matters. -/
theorem Graph.Lists.liveEdges_paired [Weight W]
    (hcomm : ∀ left right : W, left + right = right + left) {graph : Graph W}
    {pairs : List (Edge W)} (hlists : graph.Lists pairs) {count : Nat} {clusters : Clusters W}
    (hrun : Clusters.mergeTimes count (.ofGraph graph) = .ok clusters) :
    (∀ edge ∈ clusters.edges, edge.source ∈ clusters.current ∧
      edge.target ∈ clusters.current ∧ edge.source ≠ edge.target) ∧
    ∀ left ∈ clusters.current, ∀ right ∈ clusters.current, left ≠ right →
      (clusters.edges.filter (Edge.leads left right) = [] ∧
        clusters.edges.filter (Edge.leads right left) = []) ∨
      ∃ weight, clusters.edges.filter (Edge.leads left right) = [⟨left, right, weight⟩] ∧
        clusters.edges.filter (Edge.leads right left) = [⟨right, left, weight⟩] := by
  have hgraph := hlists.graph_proper
  have hreached : Clusters.Reached (.ofGraph graph) clusters := ⟨count, hrun⟩
  have hinv := hreached.invariant hgraph
  have hsymmetric :=
    Clusters.symmetric_of_reached hcomm hgraph hlists.simple hlists.symmetric hreached
  have hsimple := Clusters.simple_of_reached hlists.simple hreached
  constructor
  · intro edge hedge
    have hends := hinv.live.ends_mem hgraph hinv.partitioned hedge
    exact ⟨hends.1, hends.2, (hinv.live.exists_mem hedge).1⟩
  · intro left _ right _ _
    exact hsymmetric.filter_leads_cases hsimple left right

/-- Three pairs of doubles.  The two directions between the first merge and the third node
are joined in opposite orders. -/
def Graph.crossed : Graph Float :=
  ⟨3, [⟨1, 2, 0.2⟩, ⟨2, 0, 0.4⟩, ⟨0, 1, 0.9⟩, ⟨1, 0, 0.9⟩, ⟨0, 2, 0.4⟩, ⟨2, 1, 0.2⟩]⟩

theorem Graph.Lists.liveEdges_paired_crossed :
    Graph.crossed.Lists [⟨0, 1, 0.9⟩, ⟨0, 2, 0.4⟩, ⟨1, 2, 0.2⟩] ∧
    ∃ clusters, Clusters.mergeTimes 1 (.ofGraph Graph.crossed) = .ok clusters ∧
      clusters.current = {2, 3} ∧ clusters.edges.length = 2 ∧
      ∃ weight, clusters.edges.filter (Edge.leads 3 2) = [⟨3, 2, weight⟩] ∧
        clusters.edges.filter (Edge.leads 2 3) = [⟨2, 3, weight⟩] := by
  have hlists : Graph.crossed.Lists [⟨0, 1, 0.9⟩, ⟨0, 2, 0.4⟩, ⟨1, 2, 0.2⟩] :=
    ⟨by decide, by decide, by decide +kernel⟩
  have hstate : (Clusters.mergeTimes 1 (.ofGraph Graph.crossed)).toOption.map (fun clusters =>
      (clusters.current, clusters.edges.length,
        (clusters.edges.filter (Edge.leads 3 2)).length)) = some ({2, 3}, 2, 1) := by
    decide +kernel
  obtain ⟨clusters, hrun, hstate⟩ := exists_ok_of_toOption hstate
  simp only [Prod.mk.injEq] at hstate
  obtain ⟨hcurrent, hlength, hone⟩ := hstate
  have hpaired := (Graph.Lists.liveEdges_paired Weight.add_comm_double hlists hrun).2 3
    (by simp [hcurrent]) 2 (by simp [hcurrent]) (by decide)
  refine ⟨hlists, clusters, hrun, hcurrent, hlength, hpaired.resolve_left ?_⟩
  intro hnone
  simp [hnone.1] at hone

end AverageLinkage
