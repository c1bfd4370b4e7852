import AverageLinkage.Forest.Basic

/-!
# Merge forests in text

The number of nodes stands on the first line.  Every node has a line with its
parent and its two children, `-1` standing for an absent child, and with its
height if the layout asks for it.
-/

namespace AverageLinkage.MergeForest

inductive Layout where
  /-- Parent and children. -/
  | plain
  /-- Parent, children and height. -/
  | heights
  deriving DecidableEq, Repr

def Layout.ofFlag (heights : Bool) : Layout :=
  if heights then .heights else .plain

def Layout.label : Layout → String
  | .plain => "Classic"
  | .heights => "WithHeights"

def renderChildren : Option (Nat × Nat) → String
  | none => "-1 -1"
  | some (first, second) => s!"{first} {second}"

def renderNode (layout : Layout) (node : Node Float) : String :=
  match layout with
  | .plain => s!"{node.parent} {renderChildren node.children}\n"
  | .heights =>
      s!"{node.parent} {renderChildren node.children} {Positional.text node.height}\n"

def render (layout : Layout) (forest : MergeForest Float) : String :=
  s!"{forest.size}\n" ++ String.join (forest.nodes.toList.map (renderNode layout))

end AverageLinkage.MergeForest
