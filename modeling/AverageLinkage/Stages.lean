import AverageLinkage.Directory
import AverageLinkage.Forest.Text
import AverageLinkage.Journal
import AverageLinkage.Text.Quoted

/-!
# The two file stages

The first stage turns a file with a distance table into one with an affinity
graph; the second turns a graph into a merge forest.  Both read and process
their input completely before they create the output, so an output is touched
only once its text is known.
-/

namespace AverageLinkage

structure GraphTotals where
  nodes : Nat
  edges : Nat
  deriving DecidableEq, Repr

structure ForestTotals where
  nodes : Nat
  components : Nat
  merges : Nat
  total : Nat
  deriving DecidableEq, Repr

def Graph.totals {W : Type} (graph : Graph W) : GraphTotals :=
  { nodes := graph.nodeCount, edges := graph.edgeCount }

def MergeForest.totals {W : Type} (forest : MergeForest W) : ForestTotals :=
  { nodes := forest.leafCount
    components := forest.componentCount
    merges := forest.mergeCount
    total := forest.size }

namespace Attempt

variable {m : Type → Type} [Monad m]

def affinityGraph [Exponential] (kernel : Kernel) (table : DistanceTable) :
    Attempt m (Graph Float) :=
  within
      { name := "affinity.build_graph"
        topic := .affinity
        fields := [("nodes", .count table.size), ("max_distance", .real kernel.maxDistance)]
        awaited := ["edges"] } do
    let graph := kernel.graph table
    note "edges" (.count graph.edgeCount)
    log (.say .debug .affinity "thresholded distance matrix"
      [("pairs", .count (graph.edgeCount / 2))])
    return graph

def mergeEvent (step : Nat) (merge : Merge Float) : Event :=
  .say .debug .linkage "merged clusters"
    [("step", .count step), ("node", .count merge.node), ("left", .count merge.left),
      ("right", .count merge.right), ("height", .real merge.height)]

/-- Merge `count` times along the heaviest edges, and log each merge once it is
made.  A failure gives the number of merges that the whole clustering takes. -/
def mergeTimes (expected : Nat) : (count : Nat) → Clusters Float → Attempt m (Clusters Float)
  | 0, clusters => return clusters
  | count + 1, clusters =>
      match clusters.step? with
      | none => throw (.linkage (.edgesExhausted clusters.merges.size expected))
      | some next => do
          if let some merge := next.merges.back? then
            log (mergeEvent clusters.merges.size merge)
          mergeTimes expected count next

/-- Cluster a graph, given room for the arrays. -/
def clusterGraph (graph : Graph Float) : Attempt m (MergeForest Float) :=
  within
      { name := "linkage.average_link"
        topic := .linkage
        fields := [("nodes", .count graph.nodeCount), ("edges", .count graph.edgeCount)]
        awaited := ["components"] } do
    ofExcept .linkage (Linkage.check graph)
    let components := graph.components.count
    note "components" (.count components)
    let expected := graph.nodeCount - components
    let clusters ← mergeTimes expected expected (.ofGraph graph)
    let forest := MergeForest.ofClusters graph.nodeCount components clusters
    log (.say .info .linkage "average-link clustering completed"
      [("components", .count components), ("merges", .count expected),
        ("total_nodes", .count forest.size)])
    return forest

variable [FileAccess m]

def openInput (path : String) : Attempt m Input :=
  access path (FileAccess.openInput path)

def writeOutput (path text : String) : Attempt m Unit := do
  access path (FileAccess.create path)
  access path (FileAccess.write path text)

/-- The first stage: from a distance table to an affinity graph. -/
def affinityStage [Exponential] (tablePath graphPath : String) (kernel : Kernel) :
    Attempt m GraphTotals :=
  within
      { name := "pipeline.build_affinity_file"
        topic := .stages
        fields :=
          [("matrix", .text tablePath), ("graph", .text graphPath),
            ("matrix_path", .text (Text.quote tablePath)),
            ("graph_path", .text (Text.quote graphPath))]
        awaited := ["nodes", "edges"] } do
    let input ← openInput tablePath
    let table ← ofExcept .table (DistanceTable.read input)
    let graph ← affinityGraph kernel table
    note "nodes" (.count graph.nodeCount)
    note "edges" (.count graph.edgeCount)
    writeOutput graphPath graph.render
    log (.say .info .stages "affinity graph written"
      [("nodes", .count graph.nodeCount), ("edges", .count graph.edgeCount)])
    return graph.totals

/-- The second stage: from an affinity graph to a merge forest. -/
def clusterStage (graphPath forestPath : String) (layout : MergeForest.Layout) :
    Attempt m ForestTotals :=
  within
      { name := "pipeline.cluster_file"
        topic := .stages
        fields :=
          [("graph", .text graphPath), ("dendrogram", .text forestPath),
            ("graph_path", .text (Text.quote graphPath)),
            ("dendrogram_path", .text (Text.quote forestPath)), ("format", .text layout.label)]
        awaited := ["total_nodes"] } do
    let input ← openInput graphPath
    let graph ← ofExcept .graph (Graph.read input)
    let forest ← clusterGraph graph
    note "total_nodes" (.count forest.size)
    writeOutput forestPath (forest.render layout)
    log (.say .info .stages "dendrogram written"
      [("components", .count forest.componentCount), ("total_nodes", .count forest.size)])
    return forest.totals

end Attempt

end AverageLinkage
