import AverageLinkage.Graph.Basic
import AverageLinkage.Number.Exponential
import AverageLinkage.Table.Basic

/-!
# Thresholded Gaussian kernels

A kernel turns the distance `d` of two items into the affinity
`exp (-d² / variance)` if the distance is finite and within the threshold.
Every pair of items that is near enough contributes an edge in each direction
to the affinity graph.
-/

namespace AverageLinkage

/-- A kernel: the largest distance that yields an edge, and the variance. -/
structure Kernel where
  maxDistance : Float
  variance : Float

namespace Kernel

def defaultVariance : Float := 3600

/-- The wish for a kernel, not yet checked. -/
structure Options where
  maxDistance : Float
  variance : Float := defaultVariance

def Options.ofSettings (maxDistance : Float) (variance? : Option Float) : Options :=
  { maxDistance, variance := variance?.getD defaultVariance }

inductive Fault where
  | invalidMaxDistance (got : Float)
  | invalidVariance (got : Float)

def Fault.message : Fault → String
  | .invalidMaxDistance got => s!"max_distance must be a number (got {Positional.text got})"
  | .invalidVariance got =>
      s!"variance must be finite and greater than zero (got {Positional.text got})"

def Fault.code : Fault → String
  | .invalidMaxDistance _ => "CONFIG_INVALID_MAX_DISTANCE"
  | .invalidVariance _ => "CONFIG_INVALID_VARIANCE"

/-- A kernel needs a threshold that is a number and a finite positive
variance. -/
def ofOptions (options : Options) : Except Fault Kernel :=
  if options.maxDistance.isNaN then .error (.invalidMaxDistance options.maxDistance)
  else if !options.variance.isFinite || options.variance ≤ 0 then
    .error (.invalidVariance options.variance)
  else .ok { maxDistance := options.maxDistance, variance := options.variance }

/-- Whether two items at this distance are joined.  Infinite distances never
are, even under an infinite threshold. -/
def accepts (kernel : Kernel) (distance : Float) : Bool :=
  distance.isFinite && distance ≤ kernel.maxDistance

variable [Exponential]

def affinity (kernel : Kernel) (distance : Float) : Float :=
  Exponential.exp (-(distance * distance) / kernel.variance)

/-- The two edges of a pair of items, or none if they are too far apart. -/
def pairEdges (kernel : Kernel) : Nat × Nat × Float → List (Edge Float)
  | (row, column, distance) =>
      if kernel.accepts distance then
        let weight := kernel.affinity distance
        [{ source := column, target := row, weight },
          { source := row, target := column, weight }]
      else []

/-- The affinity graph of a table: one node per row. -/
def graph (kernel : Kernel) (table : DistanceTable) : Graph Float :=
  { nodeCount := table.size
    edges := table.pairs.flatMap kernel.pairEdges }

end Kernel

end AverageLinkage
