import AverageLinkage.Linkage.Clusters
import AverageLinkage.Number.Positional

/-!
# Merge forests

The result of a clustering: a binary forest whose leaves are the items and
whose inner nodes are the merges, in the order in which they happened.  A node
that is its own parent is a root.

The height of an inner node is the weight of its merge.  A leaf has a
placeholder height instead, one above the first merge or one if there was none.
-/

namespace AverageLinkage

namespace MergeForest

structure Node (W : Type) where
  parent : Nat
  /-- The two parts of a merge, the lower number first. -/
  children : Option (Nat × Nat)
  height : W
  /-- Number of leaves below the node. -/
  population : Nat
  deriving DecidableEq, Repr

def Node.isLeaf {W : Type} (node : Node W) : Bool :=
  node.children.isNone

/-- Enter a child into two slots.  The first child takes the first slot, and each
later one the second slot, whether it is free or not. -/
def enterChild : Option Nat × Option Nat → Nat → Option Nat × Option Nat
  | (none, second), child => (some child, second)
  | (some first, _), child => (some first, some child)

end MergeForest

structure MergeForest (W : Type) where
  leafCount : Nat
  componentCount : Nat
  nodes : Array (MergeForest.Node W)
  deriving DecidableEq, Repr

namespace MergeForest

variable {W : Type}

def size (forest : MergeForest W) : Nat :=
  forest.nodes.size

def isEmpty (forest : MergeForest W) : Bool :=
  forest.nodes.isEmpty

def mergeCount (forest : MergeForest W) : Nat :=
  forest.nodes.size - forest.leafCount

def node? (forest : MergeForest W) (id : Nat) : Option (Node W) :=
  forest.nodes[id]?

def roots (forest : MergeForest W) : List Nat :=
  (List.range forest.size).filter fun id =>
    (forest.node? id).any fun node => node.parent == id

section

variable [Weight W]

def placeholder (merges : Array (Merge W)) : W :=
  match merges[0]? with
  | some first => first.height + 1
  | none => 1

/-- Height of the node of a merge: a negative weight counts as zero, and a
weight above all others as the placeholder. -/
def mergeHeight (leafHeight weight : W) : W :=
  if weight < 0 then 0
  else if Weight.isTop weight then leafHeight
  else weight

def leaf (clusters : Clusters W) (id : Nat) : Node W :=
  { parent := clusters.parentOf id
    children := none
    height := placeholder clusters.merges
    population := clusters.populationOf id }

def inner (clusters : Clusters W) (merge : Merge W) : Node W :=
  { parent := clusters.parentOf merge.node
    children := some (min merge.left merge.right, max merge.left merge.right)
    height := mergeHeight (placeholder clusters.merges) merge.height
    population := clusters.populationOf merge.node }

/-- The forest of finished clusters: the leaves, then the merges. -/
def ofClusters (leafCount componentCount : Nat) (clusters : Clusters W) : MergeForest W :=
  { leafCount
    componentCount
    nodes := (Array.range leafCount).map (leaf clusters) ++
      clusters.merges.map (inner clusters) }

end

end MergeForest

end AverageLinkage
