import AverageLinkage.Journal
import AverageLinkage.Number.Natural
import AverageLinkage.Text.Blank

/-!
# Number of cases of a property test

The number of cases can be overridden by a setting.  A setting that is no
positive number of 32 bits is reported and ignored.
-/

namespace AverageLinkage.CaseCount

def settingName : String := "AFFINAGE_PBT_CASES"

def limit : Nat := 0xffffffff

inductive Fault where
  | zero
  | notNumber
  deriving DecidableEq, Repr

def Fault.reason : Fault → String
  | .zero => "cases must be > 0"
  | .notNumber => "not a non-negative integer"

def read (text : List Char) : Except Fault Nat :=
  match Natural.read? limit (Text.trim text) with
  | none => .error .notNumber
  | some 0 => .error .zero
  | some count => .ok count

def rejected (text : String) (fault : Fault) : Event :=
  .say .warn .cases "invalid property-test case override; using default"
    [("env", .text settingName), ("raw", .text text), ("reason", .text fault.reason)]

/-- The number of cases to run, and the journal of finding it. -/
def load (default : Nat) : Option String → Nat × Journal
  | none => (default, .empty)
  | some text =>
      match read text.toList with
      | .ok count => (count, .empty)
      | .error fault => (default, Journal.empty.log (rejected text fault))

end AverageLinkage.CaseCount
