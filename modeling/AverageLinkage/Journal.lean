import AverageLinkage.Failure

/-!
# Journals

A run keeps a journal.  A span covers a piece of work; it has a name and
fields, some of which become known only while the work is under way.  An event
has a level and fields.  Spans are listed in the order in which they end, events
in the order in which they happen, each with the spans around it.
-/

namespace AverageLinkage

inductive Level where
  | error
  | warn
  | info
  | debug
  deriving DecidableEq, Repr

namespace Level

def label : Level → String
  | .error => "ERROR"
  | .warn => "WARN"
  | .info => "INFO"
  | .debug => "DEBUG"

/-- Levels from the most to the least pressing one. -/
def order : Level → Nat
  | .error => 1
  | .warn => 2
  | .info => 3
  | .debug => 4

end Level

inductive Topic where
  | affinity
  | linkage
  | stages
  | commands
  | program
  | cases
  deriving DecidableEq, Repr

/-- The name under which the events of a part can be selected. -/
def Topic.path : Topic → String
  | .affinity => "affinage_core::affinity"
  | .linkage => "affinage_core::linkage"
  | .stages => "affinage_core::pipeline"
  | .commands => "affinage_cli::cli::commands"
  | .program => "affinage"
  | .cases => "affinage_test_support::proptest_profile"

inductive FieldValue where
  | text (content : String)
  | count (number : Nat)
  | real (number : Float)
  | flag (value : Bool)
  deriving DecidableEq, Repr

namespace FieldValue

def render : FieldValue → String
  | .text content => content
  | .count number => toString number
  | .real number => Positional.text number
  | .flag value => toString value

/-- The text of a value in a structured log, which has no infinities and no
number for an undefined result. -/
def renderStructured : FieldValue → String
  | .real number => if number.isFinite then Positional.text number else "null"
  | value => value.render

end FieldValue

abbrev Field := String × FieldValue

structure Span where
  name : String
  topic : Topic
  /-- What is known when the span begins. -/
  fields : List Field
  /-- Names of the fields that become known later, if at all. -/
  awaited : List String := []
  /-- What has become known of them. -/
  notes : List Field := []
  deriving DecidableEq, Repr

namespace Span

def known (span : Span) : List Field :=
  span.fields ++ span.notes

def hasField (span : Span) (name : String) : Bool :=
  span.fields.any (·.1 == name) || span.awaited.contains name

end Span

structure Event where
  level : Level
  topic : Topic
  fields : List Field
  /-- Names of fields without a value. -/
  vacant : List String := []
  deriving DecidableEq, Repr

namespace Event

def say (level : Level) (topic : Topic) (message : String) (fields : List Field) : Event :=
  { level, topic, fields := ("message", .text message) :: fields }

/-- The event of a failure that leaves a span. -/
def failed (topic : Topic) (failure : Failure) : Event :=
  { level := .error, topic, fields := [("error", .text failure.message)] }

/-- Whether the event has a field of this name, with or without a value. -/
def hasField (event : Event) (name : String) : Bool :=
  event.fields.any (·.1 == name) || event.vacant.contains name

end Event

/-- An event and the spans around it, the innermost one first. -/
structure Record where
  event : Event
  scope : List Span
  deriving DecidableEq, Repr

structure Journal where
  spans : Array Span := #[]
  records : Array Record := #[]
  /-- Spans that have not ended, the innermost one first. -/
  active : List Span := []
  deriving DecidableEq, Repr

namespace Journal

def empty : Journal := {}

def events (journal : Journal) : List Event :=
  journal.records.toList.map Record.event

def log (journal : Journal) (event : Event) : Journal :=
  { journal with records := journal.records.push { event, scope := journal.active } }

def enter (journal : Journal) (span : Span) : Journal :=
  { journal with active := span :: journal.active }

def leave (journal : Journal) : Journal :=
  match journal.active with
  | [] => journal
  | span :: rest => { journal with spans := journal.spans.push span, active := rest }

def note (journal : Journal) (field : Field) : Journal :=
  match journal.active with
  | [] => journal
  | span :: rest =>
      { journal with active := { span with notes := span.notes ++ [field] } :: rest }

end Journal

/-- Work that keeps a journal, also when it fails. -/
abbrev Attempt (m : Type → Type) := ExceptT Failure (StateT Journal m)

namespace Attempt

variable {m : Type → Type} [Monad m] {α : Type}

def log (event : Event) : Attempt m Unit :=
  modify (·.log event)

def note (name : String) (value : FieldValue) : Attempt m Unit :=
  modify (·.note (name, value))

def ofExcept {ε : Type} (asFailure : ε → Failure) : Except ε α → Attempt m α
  | .ok value => pure value
  | .error fault => throw (asFailure fault)

/-- Use a file; what goes wrong is a failure of the file at `path`. -/
def access (path : String) (operation : m (Except SystemFault α)) : Attempt m α :=
  ExceptT.mk (StateT.lift ((·.mapError (Failure.file path)) <$> operation))

/-- Do the work of `body` within a span.  A failure is logged before the span
ends and then passed on. -/
def within (span : Span) (body : Attempt m α) : Attempt m α :=
  ExceptT.mk do
    modify (·.enter span)
    let result ← body.run
    if let .error failure := result then
      modify (·.log (.failed span.topic failure))
    modify Journal.leave
    return result

end Attempt

end AverageLinkage
