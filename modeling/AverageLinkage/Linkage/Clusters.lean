import AverageLinkage.Graph.Basic
import AverageLinkage.Linkage.Weight

/-!
# Merging clusters

The state of a clustering: the clusters formed so far and the live edges
between those that are not yet part of another one.  A merge takes the
heaviest live edge, replaces its two ends by a new cluster and moves their other
edges onto it.  An edge that is moved is multiplied by the share of its old end
in the population of the new cluster, and edges that come to lie side by side
are added up, so the weight between two clusters is an average in which missing
edges count as zero.
-/

namespace AverageLinkage

/-- One merge: the cluster it formed, its two parts in the direction of the edge
that joined them, and the weight of that edge. -/
structure Merge (W : Type) where
  node : Nat
  left : Nat
  right : Nat
  height : W
  deriving DecidableEq, Repr

/-- Clusters are numbered in the order in which they are formed, after the
items themselves.  `parent` and `population` have an entry for each; a cluster
that is part of no other one is its own parent. -/
structure Clusters (W : Type) where
  edges : List (Edge W)
  parent : Array Nat
  population : Array Nat
  merges : Array (Merge W)
  deriving DecidableEq, Repr

namespace Edge

variable {W : Type}

/-- Whether an edge joins two clusters, in either direction. -/
def joins (left right : Nat) (edge : Edge W) : Bool :=
  (edge.source == left && edge.target == right) ||
    (edge.source == right && edge.target == left)

def touches (node : Nat) (edge : Edge W) : Bool :=
  edge.source == node || edge.target == node

def parallel (edge other : Edge W) : Bool :=
  edge.source == other.source && edge.target == other.target

end Edge

namespace Clusters

variable {W : Type}

/-- The two clusters that a merge replaces, the one it forms, and the shares
of the two in it. -/
structure Fusion (W : Type) where
  left : Nat
  right : Nat
  node : Nat
  leftShare : W
  rightShare : W

section

variable [Weight W]

/-- The cluster that takes the place of `cluster`, and the weight of an edge
that is moved along. -/
def Fusion.move (fusion : Fusion W) (cluster : Nat) (weight : W) : Nat × W :=
  if cluster = fusion.left then (fusion.node, weight * fusion.leftShare)
  else if cluster = fusion.right then (fusion.node, weight * fusion.rightShare)
  else (cluster, weight)

def Fusion.redirect (fusion : Fusion W) (edge : Edge W) : Edge W :=
  let (source, weight) := fusion.move edge.source edge.weight
  let (target, weight) := fusion.move edge.target weight
  { source, target, weight }

/-- The weights of the edges parallel to `edge`, added up in the order of the
list. -/
def bundleWeight (edges : List (Edge W)) (edge : Edge W) : W :=
  match edges.filter edge.parallel with
  | [] => edge.weight
  | first :: rest => rest.foldl (fun sum next => sum + next.weight) first.weight

/-- Go through edges and keep, of those that touch `node`, only the first one
of each bundle, with the weight of the bundle.  `incident` lists all edges that
touch `node`, and `kept` those already kept. -/
def keepFirst (node : Nat) (incident : List (Edge W)) :
    (kept edges : List (Edge W)) → List (Edge W)
  | _, [] => []
  | kept, edge :: rest =>
      if edge.touches node then
        if kept.any edge.parallel then keepFirst node incident kept rest
        else { edge with weight := bundleWeight incident edge } ::
          keepFirst node incident (edge :: kept) rest
      else edge :: keepFirst node incident kept rest

/-- Join the parallel edges at `node`. -/
def bundleAt (node : Nat) (edges : List (Edge W)) : List (Edge W) :=
  keepFirst node (edges.filter (·.touches node)) [] edges

/-- The live edges after a merge. -/
def Fusion.apply (fusion : Fusion W) (edges : List (Edge W)) : List (Edge W) :=
  bundleAt fusion.node
    ((edges.filter fun edge => !edge.joins fusion.left fusion.right).map fusion.redirect)

/-- The edge of largest weight, the first one in case of a tie.  An edge gives
way only to a strictly heavier one. -/
def heaviest? : List (Edge W) → Option (Edge W)
  | [] => none
  | first :: rest =>
      some (rest.foldl (fun best edge => if best.weight < edge.weight then edge else best) first)

/-- Every item a cluster of its own, with all edges of the graph. -/
def ofGraph (graph : Graph W) : Clusters W :=
  { edges := graph.edges
    parent := Array.range graph.nodeCount
    population := Array.replicate graph.nodeCount 1
    merges := #[] }

def populationOf (clusters : Clusters W) (cluster : Nat) : Nat :=
  clusters.population.getD cluster 0

def parentOf (clusters : Clusters W) (cluster : Nat) : Nat :=
  clusters.parent.getD cluster cluster

def fusion (clusters : Clusters W) (edge : Edge W) : Fusion W :=
  let part := clusters.populationOf edge.source
  let whole := part + clusters.populationOf edge.target
  { left := edge.source
    right := edge.target
    node := clusters.parent.size
    leftShare := Weight.share part whole
    rightShare := 1 - Weight.share part whole }

def merge (clusters : Clusters W) (edge : Edge W) : Clusters W :=
  let node := clusters.parent.size
  { edges := (clusters.fusion edge).apply clusters.edges
    parent := ((clusters.parent.setIfInBounds edge.source node).setIfInBounds
      edge.target node).push node
    population := clusters.population.push
      (clusters.populationOf edge.source + clusters.populationOf edge.target)
    merges := clusters.merges.push
      { node, left := edge.source, right := edge.target, height := edge.weight } }

/-- Merge along the heaviest live edge; `none` if no edge is left. -/
def step? (clusters : Clusters W) : Option (Clusters W) :=
  (heaviest? clusters.edges).map clusters.merge

/-- Perform `count` merges; `.error` tells how many were done when no edge was
left. -/
def mergeTimes : (count : Nat) → Clusters W → Except Nat (Clusters W)
  | 0, clusters => .ok clusters
  | count + 1, clusters =>
      match clusters.step? with
      | some next => mergeTimes count next
      | none => .error clusters.merges.size

omit [Weight W] in
@[simp]
theorem size_parent_ofGraph (graph : Graph W) : (ofGraph graph).parent.size = graph.nodeCount := by
  simp [ofGraph]

@[simp]
theorem size_parent_merge (clusters : Clusters W) (edge : Edge W) :
    (clusters.merge edge).parent.size = clusters.parent.size + 1 := by
  simp [merge]

@[simp]
theorem size_population_merge (clusters : Clusters W) (edge : Edge W) :
    (clusters.merge edge).population.size = clusters.population.size + 1 := by
  simp [merge]

@[simp]
theorem size_merges_merge (clusters : Clusters W) (edge : Edge W) :
    (clusters.merge edge).merges.size = clusters.merges.size + 1 := by
  simp [merge]

theorem heaviest?_eq_none_iff {edges : List (Edge W)} : heaviest? edges = none ↔ edges = [] := by
  cases edges <;> simp [heaviest?]

/-- The heaviest edge is one of the edges. -/
theorem mem_of_heaviest? {edges : List (Edge W)} {edge : Edge W}
    (hedge : heaviest? edges = some edge) : edge ∈ edges := by
  cases edges with
  | nil => simp [heaviest?] at hedge
  | cons first rest =>
      simp only [heaviest?, Option.some.injEq] at hedge
      subst hedge
      induction rest generalizing first with
      | nil => simp
      | cons next rest ih =>
          rw [List.foldl_cons]
          split
          · exact List.mem_cons_of_mem first (ih next)
          · rcases List.mem_cons.mp (ih first) with hfirst | hrest
            · rw [hfirst]
              exact List.mem_cons_self
            · exact List.mem_cons_of_mem first (List.mem_cons_of_mem next hrest)

/-- Every merge that is asked for is recorded. -/
theorem size_merges_mergeTimes {count : Nat} {clusters after : Clusters W}
    (hafter : mergeTimes count clusters = .ok after) :
    after.merges.size = clusters.merges.size + count := by
  induction count generalizing clusters with
  | zero =>
      simp only [mergeTimes, Except.ok.injEq] at hafter
      simp [hafter]
  | succ count ih =>
      rw [mergeTimes] at hafter
      cases hstep : clusters.step? with
      | none => simp [hstep] at hafter
      | some next =>
          simp only [hstep] at hafter
          obtain ⟨edge, _, rfl⟩ := Option.map_eq_some_iff.mp hstep
          rw [ih hafter, size_merges_merge]
          omega

end

end Clusters

end AverageLinkage
