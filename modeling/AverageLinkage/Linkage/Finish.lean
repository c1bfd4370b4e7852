import AverageLinkage.Linkage.Arena
import AverageLinkage.Linkage.Basic

/-!
# The forest of an arena

After the last merge the arrays of an arena hold a forest: every node has an entry with its
parent, its height and its population.  Children are found by going through the links, and
each node enters itself into a slot of its parent.  As with merges, every access is checked,
and so is every difference: there is no result if an index lies outside of an array or a
difference is negative.
-/

namespace AverageLinkage

namespace MergeForest

/-- A node with two slots for its children. -/
structure Draft (W : Type) where
  parent : Nat
  slots : Option Nat × Option Nat
  height : W
  population : Nat
  deriving DecidableEq, Repr

variable {W : Type}

def Draft.ofNode (node : Node W) : Draft W :=
  { parent := node.parent
    slots := (node.children.map Prod.fst, node.children.map Prod.snd)
    height := node.height
    population := node.population }

def Draft.enter (draft : Draft W) (child : Nat) : Draft W :=
  { draft with slots := enterChild draft.slots child }

end MergeForest

namespace Arena

open DisjointSets (write?)
open MergeForest (Draft mergeHeight)

/-- A difference that must not be negative. -/
def subtract? (whole part : Nat) : Option Nat :=
  if part ≤ whole then some (whole - part) else none

/-- Height of a cluster that no merge has formed. -/
def unmerged : Float :=
  Float.ofBits 0x7ff0000000000000

variable {W : Type}

/-- Enter a node into the slots of its parent. -/
def enter? (arena : Arena W) (drafts : Array (Draft W)) (id : Nat) :
    Option (Array (Draft W)) := do
  let parent ← arena.parent[id]?
  if parent = id then return drafts
  else
    let draft ← drafts[parent]?
    write? drafts parent (draft.enter id)

variable [Weight W]

/-- Height of the leaves.  The first merge is looked at only if there was one. -/
def placeholder? (arena : Arena W) (total : Nat) : Option W := do
  if arena.leafCount < total then
    return (← arena.height[arena.leafCount]?) + 1
  else return 1

/-- The entries of a node, with empty slots. -/
def draft? (arena : Arena W) (placeholder : W) (id : Nat) : Option (Draft W) := do
  return { parent := ← arena.parent[id]?
           slots := (none, none)
           height := mergeHeight placeholder (← arena.height[id]?)
           population := ← arena.population[id]? }

/-- The nodes of the forest of an arena in which all merges are made. -/
def drafts? (arena : Arena W) (componentCount : Nat) : Option (Array (Draft W)) := do
  let total ← subtract? (2 * arena.leafCount) componentCount
  let placeholder ← arena.placeholder? total
  let drafts ← (List.range total).mapM (arena.draft? placeholder)
  (List.range total).foldlM arena.enter? drafts.toArray

end Arena

/-- Cluster a graph in place, from its components to the nodes of its forest. -/
def Graph.drafts? {W : Type} [Weight W] (unmerged : W) (graph : Graph W) :
    Option (Array (MergeForest.Draft W)) := do
  let components ← graph.components?
  let expected ← Arena.subtract? graph.nodeCount components.count
  let arena ← (Arena.ofGraph unmerged graph).mergeTimes? expected
  arena.drafts? components.count

end AverageLinkage
