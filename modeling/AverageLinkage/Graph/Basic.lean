/-!
# Weighted directed graphs

A graph has nodes `0, …, nodeCount - 1` and a list of edges whose order
matters.  Nothing is required of the edges: parallel edges, loops and endpoints
outside of the graph can be represented, and the readers and the clustering
say themselves which of them they accept.
-/

namespace AverageLinkage

structure Edge (W : Type) where
  source : Nat
  target : Nat
  weight : W
  deriving BEq, DecidableEq, Repr

structure Graph (W : Type) where
  nodeCount : Nat
  edges : List (Edge W)
  deriving BEq, DecidableEq, Repr

namespace Edge

variable {W : Type}

/-- Both endpoints are nodes of a graph with `nodeCount` nodes. -/
def inRange (nodeCount : Nat) (edge : Edge W) : Bool :=
  edge.source < nodeCount && edge.target < nodeCount

end Edge

def Graph.edgeCount {W : Type} (graph : Graph W) : Nat :=
  graph.edges.length

end AverageLinkage
