/-!
# Disjoint sets

A partition of `0, …, n - 1` as a forest of parent links.  The root of a tree
stands for its set.  Two sets are united by rank: the root of smaller rank is
linked below the other one, and equal ranks raise the rank of the new root by
one.  Finding the root of an element links every element on the way directly to
it.

Elements outside of the range are their own roots and are left alone.
-/

namespace AverageLinkage

structure DisjointSets where
  parent : Array Nat
  rank : Array Nat
  deriving DecidableEq, Repr

namespace DisjointSets

/-- Ranks are kept in one byte and stay at its largest value. -/
def rankLimit : Nat := 255

def nextRank (rank : Nat) : Nat :=
  min (rank + 1) rankLimit

def singletons (size : Nat) : DisjointSets :=
  { parent := Array.range size, rank := Array.replicate size 0 }

def parentOf (parent : Array Nat) (element : Nat) : Nat :=
  parent.getD element element

def rankOf (sets : DisjointSets) (element : Nat) : Nat :=
  sets.rank.getD element 0

/-- Follow parent links from `element`, at most `steps` of them. -/
def climb (parent : Array Nat) : (steps element : Nat) → Nat
  | 0, element => element
  | steps + 1, element =>
      if parentOf parent element = element then element
      else climb parent steps (parentOf parent element)

/-- The root of the tree that holds `element`.  No chain of links is longer
than the number of elements. -/
def root (sets : DisjointSets) (element : Nat) : Nat :=
  climb sets.parent sets.parent.size element

/-- Link `element` and the elements above it directly to `root`, for at most
`steps` of them. -/
def compress (root : Nat) : (steps element : Nat) → Array Nat → Array Nat
  | 0, _, parent => parent
  | steps + 1, element, parent =>
      if parentOf parent element = element then parent
      else compress root steps (parentOf parent element)
        (parent.setIfInBounds element root)

/-- The root of an element, and the sets with shortened links. -/
def find (sets : DisjointSets) (element : Nat) : Nat × DisjointSets :=
  let top := sets.root element
  (top, { sets with parent := compress top sets.parent.size element sets.parent })

/-- Link two different roots by rank. -/
def link (sets : DisjointSets) (left right : Nat) : DisjointSets :=
  if sets.rankOf left < sets.rankOf right then
    { sets with parent := sets.parent.setIfInBounds left right }
  else
    { parent := sets.parent.setIfInBounds right left
      rank :=
        if sets.rankOf left = sets.rankOf right then
          sets.rank.setIfInBounds left (nextRank (sets.rankOf left))
        else sets.rank }

def union (sets : DisjointSets) (left right : Nat) : DisjointSets :=
  let (leftRoot, sets) := sets.find left
  let (rightRoot, sets) := sets.find right
  if leftRoot = rightRoot then sets else sets.link leftRoot rightRoot

/-! ## Checked access

The same operations with every access to the arrays checked: the result is
`none` if an access falls outside of its array. -/

/-- Follow parent links from `element` up to its root, reading at most `steps`
of them. -/
def climb? (parent : Array Nat) : (steps element : Nat) → Option Nat
  | 0, _ => none
  | steps + 1, element => do
      let above ← parent[element]?
      if above = element then return element
      else climb? parent steps above

/-- Write an entry that must be there. -/
def write? {α : Type} (entries : Array α) (index : Nat) (value : α) : Option (Array α) :=
  if index < entries.size then some (entries.setIfInBounds index value) else none

/-- Link `element` and the elements above it directly to `root`, reading at
most `steps` links. -/
def compress? (root : Nat) : (steps element : Nat) → Array Nat → Option (Array Nat)
  | 0, _, _ => none
  | steps + 1, element, parent => do
      let above ← parent[element]?
      if above = element then return parent
      else compress? root steps above (← write? parent element root)

def find? (sets : DisjointSets) (element : Nat) : Option (Nat × DisjointSets) := do
  let top ← climb? sets.parent sets.parent.size element
  let parent ← compress? top sets.parent.size element sets.parent
  return (top, { sets with parent })

def link? (sets : DisjointSets) (left right : Nat) : Option DisjointSets := do
  let leftRank ← sets.rank[left]?
  let rightRank ← sets.rank[right]?
  if leftRank < rightRank then
    return { sets with parent := ← write? sets.parent left right }
  else
    let parent ← write? sets.parent right left
    if leftRank = rightRank then
      return { parent, rank := ← write? sets.rank left (nextRank leftRank) }
    else return { sets with parent }

def union? (sets : DisjointSets) (left right : Nat) : Option DisjointSets := do
  let (leftRoot, sets) ← sets.find? left
  let (rightRoot, sets) ← sets.find? right
  if leftRoot = rightRoot then return sets else sets.link? leftRoot rightRoot

@[simp]
theorem size_parent_singletons (size : Nat) : (singletons size).parent.size = size := by
  simp [singletons]

@[simp]
theorem size_rank_singletons (size : Nat) : (singletons size).rank.size = size := by
  simp [singletons]

@[simp]
theorem size_compress (root steps element : Nat) (parent : Array Nat) :
    (compress root steps element parent).size = parent.size := by
  induction steps generalizing element parent with
  | zero => rfl
  | succ steps ih =>
      rw [compress]
      split
      · rfl
      · rw [ih, Array.size_setIfInBounds]

@[simp]
theorem size_parent_find (sets : DisjointSets) (element : Nat) :
    (sets.find element).2.parent.size = sets.parent.size := by
  simp [find]

@[simp]
theorem rank_find (sets : DisjointSets) (element : Nat) :
    (sets.find element).2.rank = sets.rank := rfl

@[simp]
theorem size_parent_link (sets : DisjointSets) (left right : Nat) :
    (sets.link left right).parent.size = sets.parent.size := by
  rw [link]
  split <;> simp

@[simp]
theorem size_rank_link (sets : DisjointSets) (left right : Nat) :
    (sets.link left right).rank.size = sets.rank.size := by
  rw [link]
  split
  · rfl
  · dsimp only
    split <;> simp

@[simp]
theorem size_parent_union (sets : DisjointSets) (left right : Nat) :
    (sets.union left right).parent.size = sets.parent.size := by
  simp only [union]
  split <;> simp

@[simp]
theorem size_rank_union (sets : DisjointSets) (left right : Nat) :
    (sets.union left right).rank.size = sets.rank.size := by
  simp only [union]
  split <;> simp

end DisjointSets

end AverageLinkage
