import AverageLinkage.Command.Usage
import AverageLinkage.Stages

/-!
# Running requests
-/

namespace AverageLinkage

inductive Summary where
  | graph (totals : GraphTotals)
  | forest (totals : ForestTotals)
  deriving DecidableEq, Repr

def Summary.render : Summary → String
  | .graph totals => s!"nodes: {totals.nodes}\nedges: {totals.edges}\n"
  | .forest totals =>
      s!"nodes: {totals.nodes}\ncomponents: {totals.components}\n" ++
        s!"merges: {totals.merges}\ntotal nodes: {totals.total}\n"

namespace Request

def command : Request → String
  | .affinity .. => "affinity"
  | .cluster .. => "cluster"

variable {m : Type → Type} [Monad m] [FileAccess m] [Exponential]

def runAffinity (table graph : String) (maxDistance : Float) (variance? : Option Float) :
    Attempt m GraphTotals :=
  Attempt.within
      { name := "cli.affinity"
        topic := .commands
        fields := [("max_distance", .real maxDistance)]
        awaited := ["variance"] } do
    let kernel ← Attempt.ofExcept .kernel
      (Kernel.ofOptions (.ofSettings maxDistance variance?))
    Attempt.note "variance" (.real kernel.variance)
    Attempt.affinityStage table graph kernel

def runCluster (graph forest : String) (heights : Bool) : Attempt m ForestTotals :=
  Attempt.within
      { name := "cli.cluster", topic := .commands, fields := [("heights", .flag heights)] } do
    Attempt.clusterStage graph forest (.ofFlag heights)

def run (request : Request) : Attempt m Summary :=
  Attempt.within
      { name := "cli.run", topic := .commands, fields := [], awaited := ["command"] } do
    Attempt.note "command" (.text request.command)
    let summary ← match request with
      | .affinity table graph maxDistance variance? =>
          Summary.graph <$> runAffinity table graph maxDistance variance?
      | .cluster graph forest heights => Summary.forest <$> runCluster graph forest heights
    Attempt.log (.say .info .commands "command completed" [])
    return summary

end Request

end AverageLinkage
