import AverageLinkage.Command.Help
import AverageLinkage.Command.Run
import AverageLinkage.Log.Filter
import AverageLinkage.Log.Format

/-!
# The program

The log is set up first; if that fails nothing else happens.  Then the command
line is read and the request run.  The summary of a request that succeeds goes
to the standard output, and a failure is the last event in the log.
-/

namespace AverageLinkage

/-- The settings that the environment holds. -/
structure Settings where
  logFormat : Option Text.Bytes := none
  logFilter : Option Text.Bytes := none
  deriving DecidableEq, Repr

/-- What a run of the program leaves behind, files apart. -/
structure Outcome where
  exitCode : Nat
  output : String := ""
  format : LogFormat := .default
  /-- The events that are logged. -/
  events : List Event := []
  /-- Why the log could not be set up. -/
  startFailure? : Option String := none
  /-- What the user is told about a refused command line. -/
  complaint : String := ""
  deriving DecidableEq, Repr

namespace Outcome

def jsonEvents (outcome : Outcome) : List Event :=
  match outcome.format with
  | .json => outcome.events
  | .human => []

def diagnostics (outcome : Outcome) : String :=
  String.join (outcome.startFailure?.toList.map (· ++ "\n")) ++ outcome.complaint ++
    String.join (outcome.events.map fun event => event.render outcome.format ++ "\n")

def ofLogFault (fault : LogFormat.Fault) : Outcome :=
  { exitCode := 1
    startFailure? := some s!"failed to initialize logging: {fault.message}" }

/-- The program breaks down over a filter that takes a character apart. -/
def ofBreakdown : Outcome :=
  { exitCode := 101 }

def ofRefusal (format : LogFormat) (refusal : Usage.Refusal) : Outcome :=
  { exitCode := refusal.exitCode
    output := refusal.output
    format
    complaint := refusal.complaint }

def logged (filter : LogFilter) (journal : Journal) : List Event :=
  (journal.records.toList.filter filter.admits).map Record.event

def failureEvent (failure : Failure) : Event :=
  let event := Event.say .error .program "command execution failed"
    [("error", .text "failed to execute command"), ("code", .text failure.code)]
  match failure.detailCode? with
  | some code => { event with fields := event.fields ++ [("detail_code", .text code)] }
  | none => { event with vacant := ["detail_code"] }

def ofResult (format : LogFormat) (filter : LogFilter) (journal : Journal) :
    Except Failure Summary → Outcome
  | .ok summary =>
      { exitCode := 0
        output := summary.render
        format
        events := logged filter journal }
  | .error failure =>
      { exitCode := 1
        format
        events := logged filter (journal.log (failureEvent failure)) }

end Outcome

namespace Program

variable {m : Type → Type} [Monad m] [FileAccess m] [Exponential]

def run (settings : Settings) (arguments : List String) : m Outcome :=
  match LogFormat.ofSetting settings.logFormat with
  | .error fault => pure (.ofLogFault fault)
  | .ok format =>
      match LogFilter.ofSetting settings.logFilter, Request.read arguments with
      | none, _ => pure .ofBreakdown
      | some _, .error refusal => pure (.ofRefusal format refusal)
      | some filter, .ok request => do
          let (result, journal) ← (request.run (m := m)).run.run .empty
          return .ofResult format filter journal result

end Program

end AverageLinkage
