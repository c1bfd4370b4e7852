import AverageLinkage.DisjointSets
import AverageLinkage.Graph.Basic

/-!
# Connected components

Two nodes belong to the same component if they are joined by a path of edges,
whatever the directions.  Components are numbered from zero in the order of
their lowest nodes.

That there is room for arrays with an entry for every node is taken for granted.
-/

namespace AverageLinkage

structure ComponentLabels where
  /-- The component of every node. -/
  labels : Array Nat
  /-- Number of components. -/
  count : Nat
  deriving DecidableEq, Repr

namespace ComponentLabels

def label? (components : ComponentLabels) (node : Nat) : Option Nat :=
  components.labels[node]?

/-- The state of a numbering that goes through the nodes in increasing order. -/
structure Numbering where
  sets : DisjointSets
  /-- The component of every root that was met. -/
  ofRoot : Array (Option Nat)
  labels : Array Nat
  count : Nat

def Numbering.start (sets : DisjointSets) (size : Nat) : Numbering :=
  { sets
    ofRoot := Array.replicate size none
    labels := #[]
    count := 0 }

/-- Number the next node: a root that was not met before opens a component. -/
def Numbering.visit (numbering : Numbering) (node : Nat) : Numbering :=
  let (root, sets) := numbering.sets.find node
  match numbering.ofRoot.getD root none with
  | some label => { numbering with sets, labels := numbering.labels.push label }
  | none =>
      { sets
        ofRoot := numbering.ofRoot.setIfInBounds root (some numbering.count)
        labels := numbering.labels.push numbering.count
        count := numbering.count + 1 }

/-- Number the next node with checked access. -/
def Numbering.visit? (numbering : Numbering) (node : Nat) : Option Numbering := do
  let (root, sets) ← numbering.sets.find? node
  match ← numbering.ofRoot[root]? with
  | some label => return { numbering with sets, labels := numbering.labels.push label }
  | none =>
      let ofRoot ← DisjointSets.write? numbering.ofRoot root (some numbering.count)
      return { sets
               ofRoot
               labels := numbering.labels.push numbering.count
               count := numbering.count + 1 }

end ComponentLabels

namespace Graph

variable {W : Type}

def nodeSets (graph : Graph W) : DisjointSets :=
  graph.edges.foldl (fun sets edge => sets.union edge.source edge.target)
    (.singletons graph.nodeCount)

def nodeSets? (graph : Graph W) : Option DisjointSets :=
  graph.edges.foldlM (fun sets edge => sets.union? edge.source edge.target)
    (.singletons graph.nodeCount)

/-- The components of a graph whose edges join nodes of the graph. -/
def components (graph : Graph W) : ComponentLabels :=
  let final := (List.range graph.nodeCount).foldl ComponentLabels.Numbering.visit
    (.start graph.nodeSets graph.nodeCount)
  { labels := final.labels, count := final.count }

/-- The components of a graph with checked access: `none` if an access to one of
the arrays falls outside of it. -/
def components? (graph : Graph W) : Option ComponentLabels := do
  let sets ← graph.nodeSets?
  let final ← (List.range graph.nodeCount).foldlM ComponentLabels.Numbering.visit?
    (.start sets graph.nodeCount)
  return { labels := final.labels, count := final.count }

theorem size_labels_visits (nodes : List Nat) (numbering : ComponentLabels.Numbering) :
    (nodes.foldl ComponentLabels.Numbering.visit numbering).labels.size =
      numbering.labels.size + nodes.length := by
  induction nodes generalizing numbering with
  | nil => rfl
  | cons node nodes ih =>
      have hvisit : (numbering.visit node).labels.size = numbering.labels.size + 1 := by
        simp only [ComponentLabels.Numbering.visit]
        split <;> simp
      rw [List.foldl_cons, ih, hvisit, List.length_cons]
      omega

/-- Every node has a label. -/
theorem size_labels_components (graph : Graph W) :
    graph.components.labels.size = graph.nodeCount := by
  simp [components, ComponentLabels.Numbering.start, size_labels_visits]

end Graph

end AverageLinkage
