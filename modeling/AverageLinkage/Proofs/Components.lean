import Mathlib
import AverageLinkage.Components
import AverageLinkage.Proofs.DisjointSets

/-!
# Components and reachability

Two nodes are connected if a path of edges joins them, whatever the directions.
The sets of nodes built from the edges represent this relation, so the roots of
the sets stand for the classes, and the numbering counts every root once.
-/

namespace AverageLinkage

namespace Graph

variable {W : Type}

def Adjacent (graph : Graph W) (source target : Nat) : Prop :=
  ∃ edge ∈ graph.edges, edge.source = source ∧ edge.target = target

/-- A path of edges, whose directions do not matter, joins two nodes. -/
def Connected (graph : Graph W) : Nat → Nat → Prop :=
  Relation.EqvGen graph.Adjacent

def InRange (graph : Graph W) : Prop :=
  ∀ edge ∈ graph.edges, edge.source < graph.nodeCount ∧ edge.target < graph.nodeCount

theorem connected_of_mem {graph : Graph W} {edge : Edge W} (hedge : edge ∈ graph.edges) :
    graph.Connected edge.source edge.target :=
  .rel _ _ ⟨edge, hedge, rfl, rfl⟩

theorem Connected.symm {graph : Graph W} {left right : Nat}
    (hconnected : graph.Connected left right) : graph.Connected right left :=
  Relation.EqvGen.symm _ _ hconnected

theorem Connected.trans {graph : Graph W} {left middle right : Nat}
    (hleft : graph.Connected left middle) (hright : graph.Connected middle right) :
    graph.Connected left right :=
  Relation.EqvGen.trans _ _ _ hleft hright

/-- A function that is constant along edges is constant on classes. -/
theorem Connected.eq_of_adjacent {graph : Graph W} {left right : Nat}
    (hconnected : graph.Connected left right) {α : Type} (value : Nat → α)
    (hedges : ∀ edge ∈ graph.edges, value edge.source = value edge.target) :
    value left = value right := by
  induction hconnected with
  | rel left right hadjacent =>
      obtain ⟨edge, hedge, rfl, rfl⟩ := hadjacent
      exact hedges edge hedge
  | refl node => rfl
  | symm left right _ ih => exact ih.symm
  | trans left middle right _ _ hleft hright => exact hleft.trans hright

/-- No path leaves the graph. -/
theorem Connected.lt_iff {graph : Graph W} (hrange : graph.InRange) {left right : Nat}
    (hconnected : graph.Connected left right) :
    left < graph.nodeCount ↔ right < graph.nodeCount := by
  have hlt := hconnected.eq_of_adjacent (fun node => node < graph.nodeCount)
    (fun edge hedge => by simp [hrange edge hedge])
  exact iff_of_eq hlt

/-! ## The sets of nodes -/

/-- Each union adds the ends of its edge to the relation that the sets represent. -/
theorem represents_foldl_union {related : Nat → Nat → Prop} {size : Nat}
    (edges : List (Edge W)) (hedges : ∀ edge ∈ edges, edge.source < size ∧ edge.target < size)
    {sets : DisjointSets} (hsize : sets.parent.size = size) (hrep : sets.Represents related) :
    (edges.foldl (fun sets edge => sets.union edge.source edge.target) sets).Represents
      fun source target => related source target ∨
        ∃ edge ∈ edges, edge.source = source ∧ edge.target = target := by
  induction edges generalizing sets related with
  | nil => simpa using hrep
  | cons edge rest ih =>
      obtain ⟨hsource, htarget⟩ := hedges edge List.mem_cons_self
      rw [← hsize] at hsource htarget
      rw [List.foldl_cons]
      have hrest := ih (fun other hother => hedges other (List.mem_cons_of_mem edge hother))
        (by simpa using hsize) (hrep.union hsource htarget)
      convert hrest using 3 with source target
      simp only [List.mem_cons, exists_eq_or_imp, or_assoc]
      rw [eq_comm (a := source), eq_comm (a := target)]

/-- The sets of nodes are the classes of connected nodes. -/
theorem represents_nodeSets {graph : Graph W} (hrange : graph.InRange) :
    graph.nodeSets.Represents graph.Adjacent := by
  have hrep := represents_foldl_union graph.edges hrange
    (DisjointSets.size_parent_singletons _) (DisjointSets.Represents.singletons _)
  simp only [false_or] at hrep
  exact hrep

theorem size_parent_nodeSets (graph : Graph W) :
    graph.nodeSets.parent.size = graph.nodeCount := by
  have hfold : ∀ (edges : List (Edge W)) (sets : DisjointSets),
      (edges.foldl (fun sets edge => sets.union edge.source edge.target) sets).parent.size =
        sets.parent.size := by
    intro edges
    induction edges with
    | nil => exact fun _ => rfl
    | cons edge rest ih =>
        intro sets
        rw [List.foldl_cons, ih, DisjointSets.size_parent_union]
  rw [nodeSets, hfold, DisjointSets.size_parent_singletons]

/-- The root of a node in the sets of nodes, which stands for its class. -/
def representative (graph : Graph W) (node : Nat) : Nat :=
  graph.nodeSets.root node

/-- Nodes have the same representative if and only if they are connected. -/
theorem representative_eq_iff {graph : Graph W} (hrange : graph.InRange) {left right : Nat} :
    graph.representative left = graph.representative right ↔ graph.Connected left right :=
  (represents_nodeSets hrange).root_eq_iff

end Graph

/-! ## The numbering -/

namespace ComponentLabels.Numbering

/-- What holds after the nodes below `visited` were numbered: the roots are
those of the beginning, `rootOf`, and exactly the roots met so far have a
number. -/
structure Visited (rootOf : Nat → Nat) (size visited : Nat) (numbering : Numbering) : Prop where
  sound : numbering.sets.Sound
  root_eq : ∀ node, numbering.sets.root node = rootOf node
  size_ofRoot : numbering.ofRoot.size = size
  met_iff : ∀ root, (numbering.ofRoot.getD root none).isSome ↔
    root ∈ (Finset.range visited).image rootOf
  count_eq : numbering.count = ((Finset.range visited).image rootOf).card

theorem Visited.start {sets : DisjointSets} (hsets : sets.Sound) (size : Nat) :
    (Numbering.start sets size).Visited sets.root size 0 := by
  have hnone : ∀ root, (Numbering.start sets size).ofRoot.getD root none = none := by
    intro root
    rcases Nat.lt_or_ge root size with hlt | hge
    · simp [Numbering.start, hlt]
    · simp [Numbering.start, hge]
  exact ⟨hsets, fun _ => rfl, by simp [Numbering.start], by simp [hnone], by simp [Numbering.start]⟩

/-- One step of a numbering. -/
theorem Visited.visit {rootOf : Nat → Nat} {size visited : Nat} {numbering : Numbering}
    (hvisited : numbering.Visited rootOf size visited) (hroot : rootOf visited < size) :
    (numbering.visit visited).Visited rootOf size (visited + 1) := by
  have hsets := hvisited.sound.find visited
  have hroots : ∀ node, (numbering.sets.find visited).2.root node = rootOf node := by
    intro node
    rw [hvisited.sound.root_find, hvisited.root_eq]
  have himage : (Finset.range (visited + 1)).image rootOf =
      insert (rootOf visited) ((Finset.range visited).image rootOf) := by
    rw [Finset.range_add_one, Finset.image_insert]
  have hmet := hvisited.met_iff (rootOf visited)
  simp only [Numbering.visit, DisjointSets.fst_find, hvisited.root_eq]
  split
  · next label hlabel =>
      -- the root was met, so the image does not grow
      have hmem : rootOf visited ∈ (Finset.range visited).image rootOf := by
        rw [← hmet, hlabel]
        rfl
      rw [Finset.insert_eq_of_mem hmem] at himage
      refine ⟨hsets, hroots, hvisited.size_ofRoot, ?_, ?_⟩
      · rw [himage]
        exact hvisited.met_iff
      · rw [himage]
        exact hvisited.count_eq
  · next hlabel =>
      have hnew : rootOf visited ∉ (Finset.range visited).image rootOf := by
        rw [← hmet, hlabel]
        simp
      refine ⟨hsets, hroots, ?_, ?_, ?_⟩
      · simpa using hvisited.size_ofRoot
      · intro root
        rw [himage, Finset.mem_insert, ← hvisited.met_iff root]
        by_cases hsame : root = rootOf visited
        · subst root
          simp [hvisited.size_ofRoot, hroot]
        · simp [hsame, Ne.symm hsame]
      · rw [himage, Finset.card_insert_of_notMem hnew, hvisited.count_eq]

/-- A whole numbering, by induction on the nodes it has visited. -/
theorem Visited.foldl_visit {rootOf : Nat → Nat} {size : Nat} {numbering : Numbering}
    (hstart : numbering.Visited rootOf size 0) (hroot : ∀ node < size, rootOf node < size)
    {visited : Nat} (hle : visited ≤ size) :
    ((List.range visited).foldl Numbering.visit numbering).Visited rootOf size visited := by
  induction visited with
  | zero => exact hstart
  | succ visited ih =>
      rw [List.range_succ, List.foldl_append]
      exact (ih (by omega)).visit (hroot visited hle)

end ComponentLabels.Numbering

namespace Graph

variable {W : Type}

theorem representative_lt {graph : Graph W} (hrange : graph.InRange) {node : Nat}
    (hnode : node < graph.nodeCount) : graph.representative node < graph.nodeCount := by
  rw [← size_parent_nodeSets graph] at hnode ⊢
  exact (represents_nodeSets hrange).sound.root_lt hnode

/-- The numbering of the nodes below `visited`. -/
theorem visited_numbering {graph : Graph W} (hrange : graph.InRange) {visited : Nat}
    (hle : visited ≤ graph.nodeCount) :
    ((List.range visited).foldl ComponentLabels.Numbering.visit
      (.start graph.nodeSets graph.nodeCount)).Visited graph.representative graph.nodeCount
        visited := by
  refine ComponentLabels.Numbering.Visited.foldl_visit ?_ (fun _ => representative_lt hrange) hle
  exact .start (represents_nodeSets hrange).sound _

/-- There are as many components as classes of connected nodes. -/
theorem count_components {graph : Graph W} (hrange : graph.InRange) :
    graph.components.count = ((Finset.range graph.nodeCount).image graph.representative).card :=
  (visited_numbering hrange le_rfl).count_eq

end Graph

end AverageLinkage
