import Mathlib
import AverageLinkage.Proofs.CheckedAccess
import AverageLinkage.Proofs.Labelling

/-!
# Labels by relaxation

A second way to label components, without disjoint sets: the lowest node without a
label opens a component, and its label is passed along edges, in passes over all of
them, until a pass changes nothing.  Labels only spread within a component, and a pass
without a change leaves no edge along which one could spread further, so the result is
the same as that of the numbering.
-/

namespace AverageLinkage

variable {W : Type}

namespace Relaxation

def labelOf (labels : List (Option Nat)) (node : Nat) : Option Nat :=
  labels[node]?.join

/-- Pass a label from one end of an edge to the other one if that has none. -/
def relaxEdge (label : Nat) (labels : List (Option Nat)) (edge : Edge W) : List (Option Nat) :=
  if labelOf labels edge.source = some label ∧ labelOf labels edge.target = none then
    labels.set edge.target (some label)
  else if labelOf labels edge.source = none ∧ labelOf labels edge.target = some label then
    labels.set edge.source (some label)
  else labels

def relaxPass (label : Nat) (edges : List (Edge W)) (labels : List (Option Nat)) :
    List (Option Nat) :=
  edges.foldl (relaxEdge label) labels

theorem labelOf_set {labels : List (Option Nat)} {node : Nat} (hnode : node < labels.length)
    (label other : Nat) :
    labelOf (labels.set node (some label)) other =
      if other = node then some label else labelOf labels other := by
  by_cases hother : other = node
  · subst hother
    simp [labelOf, hnode]
  · simp [labelOf, hother, Ne.symm hother]

theorem count_set_lt {labels : List (Option Nat)} {node : Nat} (hnode : node < labels.length)
    (hnone : labelOf labels node = none) (label : Nat) :
    (labels.set node (some label)).count none < labels.count none := by
  have hentry : labels[node] = none := by simpa [labelOf, hnode] using hnone
  have hmem : none ∈ labels := hentry ▸ List.getElem_mem hnode
  have hpos := List.count_pos_iff.mpr hmem
  rw [List.count_set hnode, hentry]
  simp only [beq_self_eq_true, if_true, reduceCtorEq, beq_iff_eq, if_false, Nat.add_zero]
  omega

theorem set_ne {labels : List (Option Nat)} {node : Nat} (hnode : node < labels.length)
    (hnone : labelOf labels node = none) (label : Nat) : labels.set node (some label) ≠ labels := by
  intro hsame
  have hless := count_set_lt hnode hnone label
  rw [hsame] at hless
  exact lt_irrefl _ hless

/-- Setting the label of a node without one changes nothing, or there are fewer nodes
without a label. -/
theorem set_eq_or_count_lt {labels : List (Option Nat)} {node : Nat}
    (hnone : labelOf labels node = none) (label : Nat) :
    labels.set node (some label) = labels ∨
      (labels.set node (some label)).count none < labels.count none := by
  rcases Nat.lt_or_ge node labels.length with hlt | hge
  · exact .inr (count_set_lt hlt hnone label)
  · exact .inl (List.set_eq_of_length_le hge)

theorem relaxEdge_eq_or_count_lt (label : Nat) (labels : List (Option Nat)) (edge : Edge W) :
    relaxEdge label labels edge = labels ∨
      (relaxEdge label labels edge).count none < labels.count none := by
  rw [relaxEdge]
  split
  · next hends => exact set_eq_or_count_lt hends.2 label
  · split
    · next hends => exact set_eq_or_count_lt hends.1 label
    · exact .inl rfl

/-- A pass either changes nothing or leaves fewer nodes without a label, so the passes come to an
end. -/
theorem relaxPass_eq_or_count_lt (label : Nat) (edges : List (Edge W))
    (labels : List (Option Nat)) :
    relaxPass label edges labels = labels ∨
      (relaxPass label edges labels).count none < labels.count none := by
  induction edges generalizing labels with
  | nil => exact .inl rfl
  | cons edge rest ih =>
      rw [relaxPass, List.foldl_cons, ← relaxPass]
      rcases relaxEdge_eq_or_count_lt label labels edge with hsame | hless
      · rw [hsame]
        exact ih labels
      · rcases ih (relaxEdge label labels edge) with hrest | hrest
        · rw [hrest]
          exact .inr hless
        · exact .inr (hrest.trans hless)

/-- Passes until one of them changes nothing. -/
def relax (label : Nat) (edges : List (Edge W)) (labels : List (Option Nat)) :
    List (Option Nat) :=
  if relaxPass label edges labels = labels then labels
  else relax label edges (relaxPass label edges labels)
termination_by labels.count none
decreasing_by
  next hchanged => exact (relaxPass_eq_or_count_lt label edges labels).resolve_left hchanged

/-- Open the component of `start` unless it has a label.  The state has the labels and
the number of components opened so far. -/
def visit (edges : List (Edge W)) (state : List (Option Nat) × Nat) (start : Nat) :
    List (Option Nat) × Nat :=
  if labelOf state.1 start = none then
    (relax state.2 edges (state.1.set start (some state.2)), state.2 + 1)
  else state

end Relaxation

/-- The labels of all nodes and the number of components, by relaxation. -/
def Graph.relaxedLabels (graph : Graph W) : List Nat × Nat :=
  let final := (List.range graph.nodeCount).foldl (Relaxation.visit graph.edges)
    (List.replicate graph.nodeCount none, 0)
  (final.1.reduceOption, final.2)

namespace Relaxation

/-! ## The spread of one label -/

/-- A pass that changes nothing changes nothing at any of its edges. -/
theorem relaxEdge_eq_of_relaxPass_eq {label : Nat} {edges : List (Edge W)}
    {labels : List (Option Nat)} (hpass : relaxPass label edges labels = labels) :
    ∀ edge ∈ edges, relaxEdge label labels edge = labels := by
  induction edges with
  | nil => simp
  | cons edge rest ih =>
      rw [relaxPass, List.foldl_cons, ← relaxPass] at hpass
      have hfirst : relaxEdge label labels edge = labels := by
        rcases relaxEdge_eq_or_count_lt label labels edge with hsame | hless
        · exact hsame
        · rcases relaxPass_eq_or_count_lt label rest (relaxEdge label labels edge) with
            hrest | hrest <;> rw [hpass] at hrest
          · rw [← hrest] at hless
            omega
          · omega
      rw [hfirst] at hpass
      intro other hother
      rcases List.mem_cons.mp hother with rfl | hother
      · exact hfirst
      · exact ih hpass other hother

/-- What holds while the label of the component of `start` spreads over the labels
`base`: it has reached only nodes of this component. -/
structure Spread (graph : Graph W) (base : List (Option Nat)) (start label : Nat)
    (labels : List (Option Nat)) : Prop where
  length_eq : labels.length = graph.nodeCount
  start_eq : labelOf labels start = some label
  reached : ∀ node, labelOf labels node = labelOf base node ∨
    graph.Connected start node ∧ labelOf labels node = some label

section

variable {graph : Graph W} {base labels : List (Option Nat)} {start label : Nat}

theorem Spread.set (hspread : Spread graph base start label labels) {node : Nat}
    (hnode : node < graph.nodeCount) (hconnected : graph.Connected start node) :
    Spread graph base start label (labels.set node (some label)) := by
  have hlt : node < labels.length := by rwa [hspread.length_eq]
  refine ⟨by simpa using hspread.length_eq, ?_, ?_⟩
  · rw [labelOf_set hlt, hspread.start_eq, ite_self]
  · intro other
    rw [labelOf_set hlt]
    split
    · next hother => exact .inr ⟨hother ▸ hconnected, rfl⟩
    · exact hspread.reached other

theorem Spread.connected (hspread : Spread graph base start label labels)
    (hfresh : ∀ node, labelOf base node ≠ some label) {node : Nat}
    (hlabel : labelOf labels node = some label) : graph.Connected start node := by
  rcases hspread.reached node with hkept | ⟨hconnected, _⟩
  · exact absurd (hkept.symm.trans hlabel) (hfresh node)
  · exact hconnected

theorem Spread.relaxEdge (hspread : Spread graph base start label labels)
    (hrange : graph.InRange) (hfresh : ∀ node, labelOf base node ≠ some label) {edge : Edge W}
    (hedge : edge ∈ graph.edges) :
    Spread graph base start label (relaxEdge label labels edge) := by
  have hends := Graph.connected_of_mem hedge
  rw [Relaxation.relaxEdge]
  split
  · next hlabel =>
      exact hspread.set (hrange edge hedge).2 ((hspread.connected hfresh hlabel.1).trans hends)
  · split
    · next hlabel =>
        exact hspread.set (hrange edge hedge).1
          ((hspread.connected hfresh hlabel.2).trans hends.symm)
    · exact hspread

/-- A pass spreads the label only within the component. -/
theorem Spread.relaxPass (hspread : Spread graph base start label labels)
    (hrange : graph.InRange) (hfresh : ∀ node, labelOf base node ≠ some label) :
    Spread graph base start label (relaxPass label graph.edges labels) := by
  suffices hfold : ∀ edges : List (Edge W), (∀ edge ∈ edges, edge ∈ graph.edges) →
      ∀ labels, Spread graph base start label labels →
        Spread graph base start label (edges.foldl (Relaxation.relaxEdge label) labels) from
    hfold graph.edges (fun _ hedge => hedge) labels hspread
  intro edges hedges
  induction edges with
  | nil => exact fun _ hlabels => hlabels
  | cons edge rest ih =>
      intro labels hlabels
      rw [List.foldl_cons]
      exact ih (fun other hother => hedges other (List.mem_cons_of_mem edge hother)) _
        (hlabels.relaxEdge hrange hfresh (hedges edge List.mem_cons_self))

theorem Spread.relax (hspread : Spread graph base start label labels)
    (hrange : graph.InRange) (hfresh : ∀ node, labelOf base node ≠ some label) :
    Spread graph base start label (relax label graph.edges labels) ∧
      Relaxation.relaxPass label graph.edges (relax label graph.edges labels) =
        relax label graph.edges labels := by
  fun_induction Relaxation.relax label graph.edges labels with
  | case1 labels hdone => exact ⟨hspread, hdone⟩
  | case2 labels _ ih => exact ih (hspread.relaxPass hrange hfresh)

/-- Next to a node that was reached, a label can only be the one that spreads. -/
theorem Spread.labelOf_neighbour (hspread : Spread graph base start label labels)
    (hfresh : ∀ node, labelOf base node ≠ some label)
    (hempty : ∀ node, graph.Connected start node → labelOf base node = none) {left right : Nat}
    (hneighbours : graph.Connected left right) (hleft : labelOf labels left = some label)
    (hright : labelOf labels right ≠ none) : labelOf labels right = some label := by
  rcases hspread.reached right with hkept | ⟨_, hlabel⟩
  · have hnone := hempty right ((hspread.connected hfresh hleft).trans hneighbours)
    exact absurd (hkept.trans hnone) hright
  · exact hlabel

/-- Without an edge along which it could spread further, a label has reached its whole
component. -/
theorem Spread.labelOf_eq_of_connected (hspread : Spread graph base start label labels)
    (hfresh : ∀ node, labelOf base node ≠ some label)
    (hempty : ∀ node, graph.Connected start node → labelOf base node = none)
    (hrange : graph.InRange)
    (hdone : Relaxation.relaxPass label graph.edges labels = labels) {node : Nat}
    (hconnected : graph.Connected start node) : labelOf labels node = some label := by
  have hedges : ∀ edge ∈ graph.edges, (labelOf labels edge.source = some label) =
      (labelOf labels edge.target = some label) := by
    intro edge hedge
    have hends := Graph.connected_of_mem hedge
    obtain ⟨hsource, htarget⟩ := hrange edge hedge
    rw [← hspread.length_eq] at hsource htarget
    have hstill := relaxEdge_eq_of_relaxPass_eq hdone edge hedge
    rw [Relaxation.relaxEdge] at hstill
    apply propext
    constructor
    · intro hlabel
      apply hspread.labelOf_neighbour hfresh hempty hends hlabel
      intro hnone
      rw [if_pos ⟨hlabel, hnone⟩] at hstill
      exact set_ne htarget hnone label hstill
    · intro hlabel
      apply hspread.labelOf_neighbour hfresh hempty hends.symm hlabel
      intro hnone
      rw [if_neg (by simp [hnone]), if_pos ⟨hnone, hlabel⟩] at hstill
      exact set_ne hsource hnone label hstill
  rw [← hconnected.eq_of_adjacent (fun node => labelOf labels node = some label) hedges]
  exact hspread.start_eq

theorem labelOf_relax (hrange : graph.InRange) (hlength : base.length = graph.nodeCount)
    (hstart : start < graph.nodeCount) (hfresh : ∀ node, labelOf base node ≠ some label)
    (hempty : ∀ node, graph.Connected start node → labelOf base node = none) :
    (relax label graph.edges (base.set start (some label))).length = graph.nodeCount ∧
      ∀ node, (graph.Connected start node →
          labelOf (relax label graph.edges (base.set start (some label))) node = some label) ∧
        (¬graph.Connected start node →
          labelOf (relax label graph.edges (base.set start (some label))) node =
            labelOf base node) := by
  have hlt : start < base.length := by rwa [hlength]
  have hfirst : Spread graph base start label (base.set start (some label)) := by
    refine ⟨by simpa using hlength, by rw [labelOf_set hlt, if_pos rfl], ?_⟩
    intro node
    rw [labelOf_set hlt]
    split
    · next hnode => exact .inr ⟨hnode ▸ .refl start, rfl⟩
    · exact .inl rfl
  obtain ⟨hspread, hdone⟩ := hfirst.relax hrange hfresh
  refine ⟨hspread.length_eq, fun node => ⟨?_, ?_⟩⟩
  · exact hspread.labelOf_eq_of_connected hfresh hempty hrange hdone
  · intro hapart
    exact (hspread.reached node).resolve_right fun hreached => hapart hreached.1

end

/-! ## All labels -/

/-- After the nodes below `visited` were tried as starts, the components that have such
a node are labelled. -/
structure Labelled (graph : Graph W) (visited : Nat) (state : List (Option Nat) × Nat) : Prop where
  length_eq : state.1.length = graph.nodeCount
  count_eq : state.2 = classesBelow graph.representative visited
  label_eq : ∀ node, node < graph.nodeCount → labelOf state.1 node =
    if firstWith graph.representative node < visited then
      some (classesBelow graph.representative (firstWith graph.representative node))
    else none

theorem labelled_start (graph : Graph W) :
    Labelled graph 0 (List.replicate graph.nodeCount none, 0) := by
  refine ⟨List.length_replicate, rfl, ?_⟩
  intro node hnode
  simp [labelOf, hnode]

theorem Labelled.labelOf_ne {graph : Graph W} {visited : Nat} {state : List (Option Nat) × Nat}
    (hlabelled : Labelled graph visited state) (node : Nat) :
    labelOf state.1 node ≠ some state.2 := by
  rcases Nat.lt_or_ge node graph.nodeCount with hlt | hge
  · rw [hlabelled.label_eq node hlt, hlabelled.count_eq]
    split
    · next hmet => exact fun hsame => (classesBelow_firstWith_lt hmet).ne (Option.some.inj hsame)
    · simp
  · rw [← hlabelled.length_eq] at hge
    simp [labelOf, hge]

/-- A component whose lowest node is not the next start keeps its label, if it has one. -/
theorem Labelled.label_eq_succ {graph : Graph W} {visited : Nat}
    {state : List (Option Nat) × Nat} (hlabelled : Labelled graph visited state) {node : Nat}
    (hnode : node < graph.nodeCount) (hne : firstWith graph.representative node ≠ visited) :
    labelOf state.1 node =
      if firstWith graph.representative node < visited + 1 then
        some (classesBelow graph.representative (firstWith graph.representative node))
      else none := by
  rw [hlabelled.label_eq node hnode]
  simp only [Nat.lt_succ_iff_lt_or_eq, hne, or_false]

/-- Trying one start more. -/
theorem Labelled.visit {graph : Graph W} (hrange : graph.InRange) {visited : Nat}
    {state : List (Option Nat) × Nat} (hlabelled : Labelled graph visited state)
    (hvisited : visited < graph.nodeCount) :
    Labelled graph (visited + 1) (visit graph.edges state visited) := by
  have hsame : ∀ node, graph.Connected visited node →
      firstWith graph.representative node = firstWith graph.representative visited :=
    fun node hconnected =>
      firstWith_congr ((Graph.representative_eq_iff hrange).mpr hconnected).symm
  have hlabel := hlabelled.label_eq visited hvisited
  have hcount := classesBelow_succ graph.representative visited
  rw [Relaxation.visit]
  by_cases hfirst : firstWith graph.representative visited = visited
  · -- a new component: its label spreads over all of it
    rw [hfirst, if_neg (lt_irrefl _)] at hlabel
    rw [if_pos hfirst] at hcount
    have hempty : ∀ node, graph.Connected visited node → labelOf state.1 node = none := by
      intro node hconnected
      have hnode := (hconnected.lt_iff hrange).mp hvisited
      rw [hlabelled.label_eq node hnode, hsame node hconnected, hfirst, if_neg (lt_irrefl _)]
    obtain ⟨hlength, hlabels⟩ :=
      labelOf_relax hrange hlabelled.length_eq hvisited hlabelled.labelOf_ne hempty
    rw [if_pos hlabel]
    refine ⟨hlength, by rw [hcount, hlabelled.count_eq], ?_⟩
    intro node hnode
    by_cases hconnected : graph.Connected visited node
    · rw [(hlabels node).1 hconnected, hsame node hconnected, hfirst, if_pos (Nat.lt_succ_self _),
        hlabelled.count_eq]
    · have hne : firstWith graph.representative node ≠ visited := by
        rintro rfl
        exact hconnected ((Graph.representative_eq_iff hrange).mp
          (root_firstWith graph.representative node))
      rw [(hlabels node).2 hconnected, hlabelled.label_eq_succ hnode hne]
  · -- the node already has the label of a lower one
    have hlt := lt_of_le_of_ne (firstWith_le_self graph.representative visited) hfirst
    rw [if_pos hlt] at hlabel
    rw [if_neg hfirst] at hcount
    rw [if_neg (by simp [hlabel])]
    refine ⟨hlabelled.length_eq, by rw [hcount, hlabelled.count_eq], ?_⟩
    intro node hnode
    have hne : firstWith graph.representative node ≠ visited := by
      rintro rfl
      exact hfirst (firstWith_firstWith graph.representative node)
    exact hlabelled.label_eq_succ hnode hne

theorem labelled_foldl_visit {graph : Graph W} (hrange : graph.InRange) {visited : Nat}
    (hle : visited ≤ graph.nodeCount) :
    Labelled graph visited ((List.range visited).foldl (visit graph.edges)
      (List.replicate graph.nodeCount none, 0)) := by
  induction visited with
  | zero => exact labelled_start graph
  | succ visited ih =>
      rw [List.range_succ, List.foldl_append]
      exact (ih (Nat.le_of_succ_le hle)).visit hrange hle

end Relaxation

namespace Graph

/-- Relaxation and numbering give the same labels. -/
theorem relaxedLabels_eq {graph : Graph W} (hrange : graph.InRange) :
    graph.relaxedLabels = (graph.components.labels.toList, graph.components.count) := by
  have hlabelled := Relaxation.labelled_foldl_visit hrange le_rfl
  rw [relaxedLabels]
  generalize (List.range graph.nodeCount).foldl (Relaxation.visit graph.edges)
    (List.replicate graph.nodeCount none, 0) = final at hlabelled
  obtain ⟨labels, count⟩ := final
  have hlabels : labels = graph.components.labels.toList.map some := by
    apply List.ext_getElem?
    intro node
    rcases Nat.lt_or_ge node graph.nodeCount with hlt | hge
    · have hfirst := lt_of_le_of_lt (firstWith_le_self graph.representative node) hlt
      have hrelaxed := hlabelled.label_eq node hlt
      rw [if_pos hfirst, ← label?_components hrange hlt] at hrelaxed
      have hlength : node < labels.length := by rwa [hlabelled.length_eq]
      have hsize : node < graph.components.labels.size := by rwa [size_labels_components]
      simpa [Relaxation.labelOf, ComponentLabels.label?, hlength, hsize] using hrelaxed
    · have hlength : labels.length ≤ node := by
        rw [hlabelled.length_eq]
        exact hge
      have hsize : graph.components.labels.size ≤ node := by rwa [size_labels_components]
      simp [hlength, hsize]
  have hcount : count = graph.components.count := by
    rw [count_components hrange, ← classesBelow]
    exact hlabelled.count_eq
  simp [hlabels, hcount, List.reduceOption]

/-- The components of a graph are found exactly if every edge joins nodes of the graph.
Then every node has a label, two nodes have the same one exactly if they are connected,
and the label is the number of components with a smaller lowest node.  The labels and
the number of components are those found by relaxation. -/
theorem components?_ordered_by_lowest (graph : Graph W) :
    (graph.components?.isSome = true ↔ graph.InRange) ∧
    ∀ components, graph.components? = some components →
      components = graph.components ∧
      components.labels.size = graph.nodeCount ∧
      (∀ left < graph.nodeCount, ∀ right < graph.nodeCount,
        (components.label? left = components.label? right ↔ graph.Connected left right)) ∧
      (∀ node < graph.nodeCount, components.label? node =
        some (graph.componentSet.filter fun nodes =>
          nodes.min < (graph.componentOf node).min).card) ∧
      components.count = graph.componentSet.card ∧
      graph.relaxedLabels = (components.labels.toList, components.count) := by
  by_cases hrange : graph.InRange
  · refine ⟨by simp [components?_eq hrange, hrange], ?_⟩
    intro components hcomponents
    rw [components?_eq hrange] at hcomponents
    obtain rfl := Option.some.inj hcomponents
    exact ⟨rfl, size_labels_components graph,
      fun _ hleft _ hright => label?_components_eq_iff hrange hleft hright,
      fun _ hnode => label?_components_eq_card hrange hnode,
      count_components_eq_card hrange, relaxedLabels_eq hrange⟩
  · refine ⟨by simp [components?_eq_none hrange, hrange], ?_⟩
    intro components hcomponents
    rw [components?_eq_none hrange] at hcomponents
    contradiction

end Graph

end AverageLinkage
