import Mathlib
import AverageLinkage.Components
import AverageLinkage.Proofs.Components

/-!
# Labels in the order of lowest nodes

A node gets as its label the number of components that have a node below all nodes of
its own one.  The roots by which the components are told apart depend on the order of
the edges; the labels only depend on which nodes share a root, and at which node a
root is met for the first time.
-/

namespace AverageLinkage

/-! ## First nodes of classes -/

section

variable (rootOf : Nat → Nat)

def firstWith (node : Nat) : Nat :=
  Nat.find (p := fun other => rootOf other = rootOf node) ⟨node, rfl⟩

/-- Number of the classes that are met below `bound`. -/
def classesBelow (bound : Nat) : Nat :=
  ((Finset.range bound).image rootOf).card

end

variable {rootOf : Nat → Nat}

theorem root_firstWith (rootOf : Nat → Nat) (node : Nat) :
    rootOf (firstWith rootOf node) = rootOf node :=
  Nat.find_spec (p := fun other => rootOf other = rootOf node) ⟨node, rfl⟩

theorem firstWith_le {node other : Nat} (hother : rootOf other = rootOf node) :
    firstWith rootOf node ≤ other :=
  Nat.find_min' _ hother

theorem firstWith_le_self (rootOf : Nat → Nat) (node : Nat) : firstWith rootOf node ≤ node :=
  firstWith_le rfl

theorem firstWith_congr {left right : Nat} (hroot : rootOf left = rootOf right) :
    firstWith rootOf left = firstWith rootOf right := by
  apply le_antisymm
  · exact firstWith_le ((root_firstWith rootOf right).trans hroot.symm)
  · exact firstWith_le ((root_firstWith rootOf left).trans hroot)

theorem firstWith_firstWith (rootOf : Nat → Nat) (node : Nat) :
    firstWith rootOf (firstWith rootOf node) = firstWith rootOf node :=
  firstWith_congr (root_firstWith rootOf node)

/-- A node is the first of its class exactly if its root was not met below it. -/
theorem firstWith_eq_self_iff {node : Nat} :
    firstWith rootOf node = node ↔ rootOf node ∉ (Finset.range node).image rootOf := by
  rw [Finset.mem_image]
  constructor
  · rintro hfirst ⟨other, hother, hroot⟩
    have hle : firstWith rootOf node ≤ other := firstWith_le hroot
    rw [hfirst] at hle
    exact absurd (Finset.mem_range.mp hother) (Nat.not_lt.mpr hle)
  · intro hnew
    by_contra hne
    have hlt := lt_of_le_of_ne (firstWith_le_self rootOf node) hne
    exact hnew ⟨firstWith rootOf node, Finset.mem_range.mpr hlt, root_firstWith rootOf node⟩

/-- A node opens a class if it is the lowest node of its class. -/
theorem classesBelow_succ (rootOf : Nat → Nat) (bound : Nat) :
    classesBelow rootOf (bound + 1) =
      if firstWith rootOf bound = bound then classesBelow rootOf bound + 1
      else classesBelow rootOf bound := by
  have himage : (Finset.range (bound + 1)).image rootOf =
      insert (rootOf bound) ((Finset.range bound).image rootOf) := by
    rw [Finset.range_add_one, Finset.image_insert]
  rw [classesBelow, himage]
  split
  · next hfirst => rw [Finset.card_insert_of_notMem (firstWith_eq_self_iff.mp hfirst), classesBelow]
  · next hmet =>
      rw [firstWith_eq_self_iff, not_not] at hmet
      rw [Finset.insert_eq_of_mem hmet, classesBelow]

theorem classesBelow_mono {low high : Nat} (hle : low ≤ high) :
    classesBelow rootOf low ≤ classesBelow rootOf high :=
  Finset.card_le_card (Finset.image_subset_image (Finset.range_subset_range.mpr hle))

/-- A class counts as soon as its first node is passed. -/
theorem classesBelow_firstWith_lt {node bound : Nat} (hlt : firstWith rootOf node < bound) :
    classesBelow rootOf (firstWith rootOf node) < classesBelow rootOf bound := by
  have hsucc := classesBelow_succ rootOf (firstWith rootOf node)
  rw [if_pos (firstWith_firstWith rootOf node)] at hsucc
  have hmono : classesBelow rootOf (firstWith rootOf node + 1) ≤ classesBelow rootOf bound :=
    classesBelow_mono hlt
  omega

/-- Different classes are opened at different numbers. -/
theorem classesBelow_firstWith_inj {left right : Nat} :
    classesBelow rootOf (firstWith rootOf left) = classesBelow rootOf (firstWith rootOf right) ↔
      rootOf left = rootOf right := by
  constructor
  · intro hsame
    have hfirst : firstWith rootOf left = firstWith rootOf right := by
      rcases Nat.lt_trichotomy (firstWith rootOf left) (firstWith rootOf right) with
        hlt | heq | hlt
      · exact absurd hsame (classesBelow_firstWith_lt hlt).ne
      · exact heq
      · exact absurd hsame (classesBelow_firstWith_lt hlt).ne'
    rw [← root_firstWith rootOf left, hfirst, root_firstWith rootOf right]
  · intro hroot
    rw [firstWith_congr hroot]

/-! ## The numbering -/

namespace ComponentLabels.Numbering

/-- The labels that a numbering has given to the nodes below `visited`, and the labels
it has noted for their roots. -/
structure Labelled (rootOf : Nat → Nat) (visited : Nat) (numbering : Numbering) : Prop where
  size_labels : numbering.labels.size = visited
  label_eq : ∀ node < visited, numbering.labels[node]? =
    some (classesBelow rootOf (firstWith rootOf node))
  ofRoot_eq : ∀ node < visited, numbering.ofRoot.getD (rootOf node) none =
    some (classesBelow rootOf (firstWith rootOf node))

theorem labelled_start (rootOf : Nat → Nat) (sets : DisjointSets) (size : Nat) :
    (Numbering.start sets size).Labelled rootOf 0 :=
  ⟨rfl, fun _ hlt => absurd hlt (Nat.not_lt_zero _), fun _ hlt => absurd hlt (Nat.not_lt_zero _)⟩

/-- What the next node gets as its label, whether its root was met or not. -/
theorem Visited.label_next {rootOf : Nat → Nat} {size visited : Nat} {numbering : Numbering}
    (hvisited : numbering.Visited rootOf size visited)
    (hlabelled : numbering.Labelled rootOf visited) :
    (numbering.ofRoot.getD (rootOf visited) none).getD numbering.count =
      classesBelow rootOf (firstWith rootOf visited) := by
  by_cases hfirst : firstWith rootOf visited = visited
  · have hnew : ¬(numbering.ofRoot.getD (rootOf visited) none).isSome := by
      rw [hvisited.met_iff]
      exact firstWith_eq_self_iff.mp hfirst
    rw [Option.not_isSome_iff_eq_none.mp hnew, hfirst]
    exact hvisited.count_eq
  · have hlt := lt_of_le_of_ne (firstWith_le_self rootOf visited) hfirst
    have hnoted := hlabelled.ofRoot_eq _ hlt
    rw [root_firstWith rootOf, firstWith_firstWith] at hnoted
    rw [hnoted]
    rfl

theorem Labelled.getElem?_push {rootOf : Nat → Nat} {visited : Nat} {numbering : Numbering}
    (hlabelled : numbering.Labelled rootOf visited) {node : Nat} (hnode : node < visited + 1) :
    (numbering.labels.push (classesBelow rootOf (firstWith rootOf visited)))[node]? =
      some (classesBelow rootOf (firstWith rootOf node)) := by
  have hsize := hlabelled.size_labels
  rcases Nat.lt_succ_iff_lt_or_eq.mp hnode with hlt | rfl
  · rw [Array.getElem?_push_lt (by omega), ← hlabelled.label_eq node hlt]
    simp [hsize, hlt]
  · simp [← hsize]

/-- One step of a numbering labels one node more. -/
theorem Labelled.visit {rootOf : Nat → Nat} {size visited : Nat} {numbering : Numbering}
    (hlabelled : numbering.Labelled rootOf visited)
    (hvisited : numbering.Visited rootOf size visited) (hroot : rootOf visited < size) :
    (numbering.visit visited).Labelled rootOf (visited + 1) := by
  have hnext := hvisited.label_next hlabelled
  have hsize := hlabelled.size_labels
  simp only [Numbering.visit, DisjointSets.fst_find, hvisited.root_eq]
  split
  · next label hlabel =>
      rw [hlabel, Option.getD_some] at hnext
      subst hnext
      refine ⟨by simp [hsize], fun _ hnode => hlabelled.getElem?_push hnode, ?_⟩
      intro node hnode
      rcases Nat.lt_succ_iff_lt_or_eq.mp hnode with hlt | rfl
      · exact hlabelled.ofRoot_eq node hlt
      · exact hlabel
  · next hlabel =>
      rw [hlabel, Option.getD_none] at hnext
      have hunmet : ∀ node < visited, rootOf node ≠ rootOf visited := by
        intro node hlt hsame
        have hnoted := hlabelled.ofRoot_eq node hlt
        rw [hsame, hlabel] at hnoted
        contradiction
      rw [hnext]
      refine ⟨by simp [hsize], fun _ hnode => hlabelled.getElem?_push hnode, ?_⟩
      intro node hnode
      rcases Nat.lt_succ_iff_lt_or_eq.mp hnode with hlt | rfl
      · have hne := Ne.symm (hunmet node hlt)
        simpa [hne] using hlabelled.ofRoot_eq node hlt
      · simp [hvisited.size_ofRoot, hroot]

/-- A whole numbering labels all nodes it has visited. -/
theorem Labelled.foldl_visit {rootOf : Nat → Nat} {size : Nat} {numbering : Numbering}
    (hlabelled : numbering.Labelled rootOf 0) (hvisited : numbering.Visited rootOf size 0)
    (hroot : ∀ node < size, rootOf node < size) {visited : Nat} (hle : visited ≤ size) :
    ((List.range visited).foldl Numbering.visit numbering).Labelled rootOf visited := by
  induction visited with
  | zero => exact hlabelled
  | succ visited ih =>
      have hformer := hvisited.foldl_visit hroot (Nat.le_of_succ_le hle)
      rw [List.range_succ, List.foldl_append]
      exact (ih (Nat.le_of_succ_le hle)).visit hformer (hroot visited hle)

end ComponentLabels.Numbering

namespace Graph

variable {W : Type}

/-- The label of a node is the number of classes with a lower first node. -/
theorem label?_components {graph : Graph W} (hrange : graph.InRange) {node : Nat}
    (hnode : node < graph.nodeCount) :
    graph.components.label? node =
      some (classesBelow graph.representative (firstWith graph.representative node)) := by
  have hvisited := ComponentLabels.Numbering.Visited.start (represents_nodeSets hrange).sound
    graph.nodeCount
  have hlabelled := ComponentLabels.Numbering.labelled_start graph.representative graph.nodeSets
    graph.nodeCount
  exact (hlabelled.foldl_visit hvisited (fun _ => representative_lt hrange) le_rfl).label_eq node
    hnode

/-! ## Components as sets of nodes -/

open Classical in
/-- The component of a node: the nodes of the graph that are connected to it. -/
noncomputable def componentOf (graph : Graph W) (node : Nat) : Finset Nat :=
  (Finset.range graph.nodeCount).filter (graph.Connected node)

noncomputable def componentSet (graph : Graph W) : Finset (Finset Nat) :=
  (Finset.range graph.nodeCount).image graph.componentOf

theorem mem_componentOf {graph : Graph W} {node other : Nat} :
    other ∈ graph.componentOf node ↔ other < graph.nodeCount ∧ graph.Connected node other := by
  simp [componentOf]

/-- Nodes have the same component if and only if they are connected. -/
theorem componentOf_eq_iff {graph : Graph W} {left right : Nat} (hright : right < graph.nodeCount) :
    graph.componentOf left = graph.componentOf right ↔ graph.Connected left right := by
  constructor
  · intro hsame
    have hmem : right ∈ graph.componentOf right := mem_componentOf.mpr ⟨hright, .refl right⟩
    rw [← hsame, mem_componentOf] at hmem
    exact hmem.2
  · intro hconnected
    ext other
    rw [mem_componentOf, mem_componentOf]
    exact and_congr_right fun _ => ⟨hconnected.symm.trans, hconnected.trans⟩

/-- The lowest node of a component is the first one with its root. -/
theorem min_componentOf {graph : Graph W} (hrange : graph.InRange) {node : Nat}
    (hnode : node < graph.nodeCount) :
    (graph.componentOf node).min = (firstWith graph.representative node : ℕ) := by
  apply le_antisymm
  · apply Finset.min_le
    have hle := firstWith_le_self graph.representative node
    refine mem_componentOf.mpr ⟨lt_of_le_of_lt hle hnode, ?_⟩
    exact (representative_eq_iff hrange).mp (root_firstWith graph.representative node).symm
  · rw [Finset.le_min_iff]
    intro other hother
    have hconnected := (mem_componentOf.mp hother).2
    exact WithTop.coe_le_coe.mpr (firstWith_le ((representative_eq_iff hrange).mpr hconnected).symm)

theorem connected_representative {graph : Graph W} (hrange : graph.InRange) (node : Nat) :
    graph.Connected node (graph.representative node) :=
  (represents_nodeSets hrange).eqv_root node

/-- Roots and components tell the same nodes apart, so there are as many. -/
theorem classesBelow_eq_card {graph : Graph W} (hrange : graph.InRange) {bound : Nat}
    (hbound : bound ≤ graph.nodeCount) :
    classesBelow graph.representative bound =
      ((Finset.range bound).image graph.componentOf).card := by
  have hlt : ∀ node ∈ Finset.range bound, graph.representative node < graph.nodeCount :=
    fun node hnode => representative_lt hrange (lt_of_lt_of_le (Finset.mem_range.mp hnode) hbound)
  have hroots : (Finset.range bound).image graph.componentOf =
      ((Finset.range bound).image graph.representative).image graph.componentOf := by
    rw [Finset.image_image]
    apply Finset.image_congr
    intro node hnode
    exact (componentOf_eq_iff (hlt node hnode)).mpr (connected_representative hrange node)
  have hinj : Set.InjOn graph.componentOf ((Finset.range bound).image graph.representative) := by
    intro left hleft right hright hsame
    obtain ⟨leftNode, _, rfl⟩ := Finset.mem_image.mp hleft
    obtain ⟨rightNode, hrightNode, rfl⟩ := Finset.mem_image.mp hright
    have hconnected := (componentOf_eq_iff (hlt rightNode hrightNode)).mp hsame
    apply (representative_eq_iff hrange).mpr
    exact ((connected_representative hrange leftNode).trans hconnected).trans
      (connected_representative hrange rightNode).symm
  rw [hroots, Finset.card_image_of_injOn hinj, classesBelow]

/-- The components with a node below `bound` are those whose lowest node is below it. -/
theorem filter_componentSet {graph : Graph W} {bound : Nat} (hbound : bound ≤ graph.nodeCount) :
    graph.componentSet.filter (fun nodes => nodes.min < (bound : WithTop ℕ)) =
      (Finset.range bound).image graph.componentOf := by
  ext nodes
  rw [Finset.mem_filter, componentSet, Finset.mem_image, Finset.mem_image]
  constructor
  · rintro ⟨⟨node, hnode, rfl⟩, hmin⟩
    obtain ⟨lowest, hlowest⟩ := Finset.min_of_mem
      (mem_componentOf.mpr ⟨Finset.mem_range.mp hnode, .refl node⟩)
    have hmem := mem_componentOf.mp (Finset.mem_of_min hlowest)
    rw [hlowest] at hmin
    refine ⟨lowest, Finset.mem_range.mpr (WithTop.coe_lt_coe.mp hmin), ?_⟩
    exact (componentOf_eq_iff (Finset.mem_range.mp hnode)).mpr hmem.2.symm
  · rintro ⟨node, hnode, rfl⟩
    have hlt := lt_of_lt_of_le (Finset.mem_range.mp hnode) hbound
    refine ⟨⟨node, Finset.mem_range.mpr hlt, rfl⟩, ?_⟩
    have hmin := Finset.min_le (mem_componentOf.mpr ⟨hlt, .refl node⟩)
    exact lt_of_le_of_lt hmin (WithTop.coe_lt_coe.mpr (Finset.mem_range.mp hnode))

/-- The labels are as many as the components. -/
theorem count_components_eq_card {graph : Graph W} (hrange : graph.InRange) :
    graph.components.count = graph.componentSet.card := by
  rw [count_components hrange, componentSet, ← classesBelow_eq_card hrange le_rfl, classesBelow]

/-- A label is the number of components whose lowest node is smaller than that of the
node's own component. -/
theorem label?_components_eq_card {graph : Graph W} (hrange : graph.InRange) {node : Nat}
    (hnode : node < graph.nodeCount) :
    graph.components.label? node =
      some (graph.componentSet.filter fun nodes =>
        nodes.min < (graph.componentOf node).min).card := by
  have hfirst := (lt_of_le_of_lt (firstWith_le_self graph.representative node) hnode).le
  rw [label?_components hrange hnode, min_componentOf hrange hnode, filter_componentSet hfirst,
    classesBelow_eq_card hrange hfirst]

/-- Nodes have the same label if and only if they are connected. -/
theorem label?_components_eq_iff {graph : Graph W} (hrange : graph.InRange) {left right : Nat}
    (hleft : left < graph.nodeCount) (hright : right < graph.nodeCount) :
    graph.components.label? left = graph.components.label? right ↔ graph.Connected left right := by
  rw [label?_components hrange hleft, label?_components hrange hright, Option.some.injEq,
    classesBelow_firstWith_inj, representative_eq_iff hrange]

end Graph

end AverageLinkage
