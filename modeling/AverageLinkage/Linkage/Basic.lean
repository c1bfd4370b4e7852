import AverageLinkage.Components
import AverageLinkage.Forest.Basic

/-!
# Average linkage

A graph is clustered by merging along the heaviest edge until every connected
component is a single cluster.  With `N` nodes in `C` components this takes
`N - C` merges, and the forest has `2 N - C` nodes.

`Graph.cluster` takes it for granted that there is room for the arrays that a
clustering works with.  `Graph.clusterEnding` does not: it says how a clustering
ends if an array must not take more bytes than a signed 64-bit word can count.
-/

namespace AverageLinkage

namespace Linkage

inductive Fault where
  | capacityOverflow (nodeCount : Nat)
  | invalidEdge (index source target nodeCount : Nat)
  | edgesExhausted (merge expected : Nat)
  deriving DecidableEq, Repr

def Fault.message : Fault → String
  | .capacityOverflow nodeCount =>
      s!"graph with {nodeCount} nodes exceeds dendrogram capacity"
  | .invalidEdge index source target nodeCount =>
      s!"edge {index} ({source} -> {target}) is invalid for {nodeCount} nodes"
  | .edgesExhausted merge expected =>
      s!"no live edge left for merge {merge} of {expected}"

def Fault.code : Fault → String
  | .capacityOverflow _ => "LINKAGE_CAPACITY_OVERFLOW"
  | .invalidEdge .. => "LINKAGE_INVALID_EDGE"
  | .edgesExhausted .. => "LINKAGE_EDGES_EXHAUSTED"

/-- Largest number that a text of a forest may hold: that of a signed 64-bit
word. -/
def idLimit : Nat := 0x7fffffffffffffff

end Linkage

structure Linkage (W : Type) where
  leafCount : Nat
  componentCount : Nat
  clusters : Clusters W
  deriving DecidableEq, Repr

namespace Linkage

variable {W : Type}

/-- An edge that clustering accepts: no loop, and both ends in the graph. -/
def isProper (nodeCount : Nat) (edge : Edge W) : Bool :=
  edge.source != edge.target && edge.inRange nodeCount

/-- Check the edges in order, from number `index` on. -/
def checkEdges (nodeCount : Nat) : (index : Nat) → List (Edge W) → Except Fault Unit
  | _, [] => .ok ()
  | index, edge :: rest =>
      if isProper nodeCount edge then checkEdges nodeCount (index + 1) rest
      else .error (.invalidEdge index edge.source edge.target nodeCount)

/-- Check that the numbers of a forest fit and that the edges are proper.  That
there is room for the arrays is not checked. -/
def check (graph : Graph W) : Except Fault Unit :=
  if idLimit < 2 * graph.nodeCount then .error (.capacityOverflow graph.nodeCount)
  else checkEdges graph.nodeCount 0 graph.edges

def merges (linkage : Linkage W) : Array (Merge W) :=
  linkage.clusters.merges

section

variable [Weight W]

/-- Merge until every component is one cluster. -/
def mergeAll (graph : Graph W) (componentCount : Nat) : Except Fault (Linkage W) :=
  let expected := graph.nodeCount - componentCount
  match Clusters.mergeTimes expected (.ofGraph graph) with
  | .ok clusters => .ok { leafCount := graph.nodeCount, componentCount, clusters }
  | .error merge => .error (.edgesExhausted merge expected)

def forest (linkage : Linkage W) : MergeForest W :=
  .ofClusters linkage.leafCount linkage.componentCount linkage.clusters

end

/-! ## Room for the arrays -/

/-- Most bytes that an array may take. -/
def arrayLimit : Nat := 0x7fffffffffffffff

/-- Bytes of a population, a height or a parent. -/
def entryWidth : Nat := 8

/-- Bytes of a node of the forest: a parent, two children either of which may be
missing, a height and a population. -/
def nodeWidth : Nat := 56

def hasRoom (entries width : Nat) : Bool :=
  width * entries ≤ arrayLimit

/-- How a clustering ends.  It breaks down over an array with so many entries, of
so many bytes each, that there is no room for it. -/
inductive Ending (W : Type) where
  | clustered (linkage : Linkage W)
  | refused (fault : Fault)
  | breakdown (entries width : Nat)
  deriving DecidableEq, Repr

end Linkage

section

variable {W : Type} [Weight W]

/-- Cluster a graph with average linkage, given room for the arrays. -/
def Graph.cluster (graph : Graph W) : Except Linkage.Fault (Linkage W) := do
  Linkage.check graph
  Linkage.mergeAll graph graph.components.count

/-- Cluster a graph with average linkage.  The arrays for all clusters are made
before the first merge, and the array of the nodes after the last one.  No other
array is larger, except that there may be more edges, for which the graph itself
has room already. -/
def Graph.clusterEnding (graph : Graph W) : Linkage.Ending W :=
  let capacity := 2 * graph.nodeCount
  match Linkage.check graph with
  | .error fault => .refused fault
  | .ok () =>
      if Linkage.hasRoom capacity Linkage.entryWidth then
        match Linkage.mergeAll graph graph.components.count with
        | .error fault => .refused fault
        | .ok linkage =>
            let total := capacity - linkage.componentCount
            if Linkage.hasRoom total Linkage.nodeWidth then .clustered linkage
            else .breakdown total Linkage.nodeWidth
      else .breakdown capacity Linkage.entryWidth

end

end AverageLinkage
