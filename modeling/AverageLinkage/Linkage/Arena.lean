import AverageLinkage.DisjointSets
import AverageLinkage.Linkage.Clusters
import AverageLinkage.Number.Natural

/-!
# Merging in place

The same merges on arrays that have their full size from the start.  Edges stand in slots.
An edge that is taken out leaves an empty slot behind, and at the end of a merge the slots
that are still filled move together.  To find parallel edges at the new cluster, the slots of
its edges are sorted by the other ends.  Every access is checked, and so is the sum of two
populations: a merge gives `none` if it reaches outside of an array or if the sum is no word.

That there is room for the arrays is taken for granted here; see `Graph.clusterEnding`.
-/

namespace AverageLinkage

variable {W : Type}

namespace Edge

inductive Side where
  | source
  | target
  deriving DecidableEq, Repr

def near : Side → Edge W → Nat
  | .source, edge => edge.source
  | .target, edge => edge.target

def far : Side → Edge W → Nat
  | .source, edge => edge.target
  | .target, edge => edge.source

end Edge

/-- The state of a clustering: slots for the edges, and one entry of every other array for
each cluster that may be formed. -/
structure Arena (W : Type) where
  leafCount : Nat
  slots : Array (Option (Edge W))
  population : Array Nat
  height : Array W
  parent : Array Nat
  deriving DecidableEq, Repr

namespace Arena

open DisjointSets (write?)

/-- Empty the slots of the edges between two clusters. -/
def clear (left right : Nat) (slots : Array (Option (Edge W))) : Array (Option (Edge W)) :=
  slots.map (·.filter fun edge => !edge.joins left right)

/-- The slots of the edges with one side at `node`: the end on the other side, and the number
of the slot. -/
def heldAt (side : Edge.Side) (node : Nat) (slots : Array (Option (Edge W))) :
    List (Nat × Nat) :=
  slots.toList.zipIdx.filterMap fun (slot, index) =>
    (slot.filter fun edge => edge.near side == node).map fun edge => (edge.far side, index)

/-- Whether an entry stands before another one: by the other end, then by the slot. -/
def precedes (left right : Nat × Nat) : Bool :=
  left.1 < right.1 || (left.1 == right.1 && left.2 ≤ right.2)

/-- Sorted entries in runs with the same other end. -/
def runs (entries : List (Nat × Nat)) : List (List (Nat × Nat)) :=
  (entries.mergeSort precedes).splitBy fun left right => left.1 == right.1

section

variable [Weight W]

/-- Move the edges onto the new cluster. -/
def redirect (fusion : Clusters.Fusion W) (slots : Array (Option (Edge W))) :
    Array (Option (Edge W)) :=
  slots.map (·.map fusion.redirect)

/-- Empty a slot and add the weight of its edge to the edge in slot `keep`. -/
def absorb? (keep : Nat) (slots : Array (Option (Edge W))) (entry : Nat × Nat) :
    Option (Array (Option (Edge W))) := do
  match ← slots[entry.2]? with
  | none => return slots
  | some removed =>
      let slots ← write? slots entry.2 none
      match ← slots[keep]? with
      | none => return slots
      | some kept => write? slots keep (some { kept with weight := kept.weight + removed.weight })

/-- Join the edges of a run in its first slot. -/
def joinRun? (slots : Array (Option (Edge W))) :
    List (Nat × Nat) → Option (Array (Option (Edge W)))
  | [] => some slots
  | (_, keep) :: rest => rest.foldlM (absorb? keep) slots

/-- Join the edges with one side at `node` that have the same other end. -/
def joinAt? (side : Edge.Side) (node : Nat) (slots : Array (Option (Edge W))) :
    Option (Array (Option (Edge W))) :=
  (runs (heldAt side node slots)).foldlM joinRun? slots

def settle? (fusion : Clusters.Fusion W) (slots : Array (Option (Edge W))) :
    Option (Array (Option (Edge W))) := do
  let moved := redirect fusion (clear fusion.left fusion.right slots)
  let slots ← joinAt? .source fusion.node moved
  let slots ← joinAt? .target fusion.node slots
  return slots.filter Option.isSome

/-- The edge of largest weight, the first one in case of a tie. -/
def heaviest? (arena : Arena W) : Option (Edge W) :=
  Clusters.heaviest? (arena.slots.toList.filterMap id)

/-- The sum of two populations, if it is a word. -/
def sum? (left right : Nat) : Option Nat :=
  if left + right ≤ Natural.wordLimit then some (left + right) else none

/-- Merge the two ends of an edge; the merge has number `step`. -/
def fuse? (arena : Arena W) (step : Nat) (edge : Edge W) : Option (Arena W) := do
  let node := arena.leafCount + step
  let height ← write? arena.height node edge.weight
  let parent ← write? arena.parent edge.source node
  let parent ← write? parent edge.target node
  let whole ← sum? (← arena.population[edge.source]?) (← arena.population[edge.target]?)
  let population ← write? arena.population node whole
  let share : W := Weight.share (← population[edge.source]?) (← population[node]?)
  let slots ← settle?
    { left := edge.source, right := edge.target, node, leftShare := share
      rightShare := 1 - share } arena.slots
  return { arena with slots, population, height, parent }

/-- Perform merge number `step` along the heaviest edge, if an edge is left. -/
def merge? (arena : Arena W) (step : Nat) : Option (Option (Merge W) × Arena W) :=
  match arena.heaviest? with
  | none => some (none, arena)
  | some edge => (arena.fuse? step edge).map fun after =>
      (some { node := arena.leafCount + step, left := edge.source, right := edge.target
              height := edge.weight }, after)

/-- Perform merges number `0` to `count - 1`. -/
def mergeTimes? (count : Nat) (arena : Arena W) : Option (Arena W) :=
  (List.range count).foldlM (fun arena step => (arena.merge? step).map Prod.snd) arena

end

/-- Every item a cluster of its own, with room for as many clusters again.  A cluster that is
not yet formed has height `unmerged`. -/
def ofGraph (unmerged : W) (graph : Graph W) : Arena W :=
  { leafCount := graph.nodeCount
    slots := (graph.edges.map some).toArray
    population := Array.replicate (2 * graph.nodeCount) 1
    height := Array.replicate (2 * graph.nodeCount) unmerged
    parent := Array.range (2 * graph.nodeCount) }

end Arena

end AverageLinkage
