/-!
# Depth of nesting

The constructs of a notation stand in one another.  A value that was read keeps
how deep they do, so that a reader can refuse what is nested too deeply.
-/

namespace AverageLinkage

/-- A value with the depth of the constructs it was read from; a character has
none. -/
structure Nested (α : Type) where
  value : α
  depth : Nat := 0
  deriving DecidableEq, Repr

namespace Nested

variable {α β γ : Type}

def wrap (build : α → β) (inner : Nested α) : Nested β :=
  { value := build inner.value, depth := inner.depth + 1 }

def pair (build : α → β → γ) (left : Nested α) (right : Nested β) : Nested γ :=
  { value := build left.value right.value, depth := Nat.max left.depth right.depth + 1 }

def deepest (items : List (Nested α)) : Nat :=
  items.foldr (fun item depth => Nat.max item.depth depth) 0

/-- Values side by side are one construct; a value alone adds nothing to its own
depth, and no value at all has none. -/
def join (build : List α → β) (items : List (Nested α)) : Nested β :=
  { value := build (items.map value)
    depth := if items.length ≤ 1 then deepest items else deepest items + 1 }

end Nested

end AverageLinkage
