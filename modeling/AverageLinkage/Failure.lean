import AverageLinkage.Graph.Text
import AverageLinkage.Kernel
import AverageLinkage.Linkage.Basic
import AverageLinkage.Table.Text

/-!
# Failures of a run

Whatever can go wrong between reading an input and writing an output, with a
stable code for the stage, a second code for the fault within the stage, and
the message of the fault.
-/

namespace AverageLinkage

inductive Failure where
  | kernel (fault : Kernel.Fault)
  | table (fault : DistanceTable.Fault)
  | graph (fault : Graph.Fault)
  | linkage (fault : Linkage.Fault)
  /-- A file could not be opened, created or written. -/
  | file (path : String) (cause : SystemFault)

namespace Failure

def message : Failure → String
  | .kernel fault => fault.message
  | .table fault => fault.message
  | .graph fault => fault.message
  | .linkage fault => fault.message
  | .file path cause => s!"i/o failure on `{path}`: {cause.message}"

def code : Failure → String
  | .kernel _ => "AFFINAGE_CONFIG"
  | .table _ => "AFFINAGE_MALFORMED_MATRIX"
  | .graph _ => "AFFINAGE_MALFORMED_GRAPH"
  | .linkage _ => "AFFINAGE_LINKAGE_FAILURE"
  | .file .. => "AFFINAGE_IO"

/-- The code of the fault within its stage; file access has none. -/
def detailCode? : Failure → Option String
  | .kernel fault => some fault.code
  | .table fault => some fault.code
  | .graph fault => some fault.code
  | .linkage fault => some fault.code
  | .file .. => none

def cause? : Failure → Option SystemFault
  | .table (.unreadable cause) => some cause
  | .graph (.unreadable cause) => some cause
  | .file _ cause => some cause
  | _ => none

end Failure

end AverageLinkage
