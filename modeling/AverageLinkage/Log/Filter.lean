import AverageLinkage.Log.Directive

/-!
# What is logged

A filter is a list of directives, given in a setting with commas between them.
An event is logged if it happens within a span for which a directive allows its
level, or if the most specific of the directives that do not depend on spans
allows it.
-/

namespace AverageLinkage

namespace Directive

/-- The directive depends on the span in which an event happens. -/
def isScoped (directive : Directive) : Bool :=
  directive.span?.isSome || !directive.demands.isEmpty

/-- The directive decides on events by themselves. -/
def isPlain (directive : Directive) : Bool :=
  directive.span?.isNone && directive.demands.all fun demand => demand.value?.isNone

def coversTopic (directive : Directive) (topic : Topic) : Bool :=
  match directive.topic? with
  | none => true
  | some beginning => beginning.toList.isPrefixOf topic.path.toList

def coversEvent (directive : Directive) (event : Event) : Bool :=
  directive.coversTopic event.topic &&
    directive.demands.all fun demand => event.hasField demand.name

def coversSpan (directive : Directive) (span : Span) : Bool :=
  directive.coversTopic span.topic &&
    (match directive.span? with
      | none => true
      | some name => name == span.name) &&
    directive.demands.all fun demand => span.hasField demand.name

/-- The length of the topic; no topic is shorter than every topic. -/
def topicRank (directive : Directive) : Nat :=
  match directive.topic? with
  | none => 0
  | some beginning => beginning.utf8ByteSize + 1

/-- Compare two directives by how specific they are: by their topics, by the
number of their fields, and then by the names of the fields. -/
def compareRank (left right : Directive) : Ordering :=
  ((compare left.topicRank right.topicRank).then
    (compare left.demands.length right.demands.length)).then
      (compare (left.demands.map FieldDemand.name) (right.demands.map FieldDemand.name))

/-- The more specific of two directives, and the later one if they are equally
specific. -/
def prefer (earlier? : Option Directive) (later : Directive) : Option Directive :=
  match earlier? with
  | none => some later
  | some earlier => if later.compareRank earlier = .lt then some earlier else some later

/-- Two directives for the same events: the later one replaces the earlier. -/
def sameAim (left right : Directive) : Bool :=
  left.topic? == right.topic? && left.span? == right.span? && left.demands == right.demands

end Directive

structure LogFilter where
  directives : List Directive
  deriving DecidableEq, Repr

namespace LogFilter

def settingName : String := "RUST_LOG"

/-- The filter used if none is set, or if it cannot be read. -/
def default : LogFilter :=
  { directives := [{ depth := Level.info.order }] }

def read (text : List Char) : Except Directive.Fault LogFilter := do
  let texts := (Text.pieces (· == ',') text).filter fun piece => !piece.isEmpty
  return { directives := ← texts.mapM Directive.read }

/-- The filter that a setting selects.  There is none if a directive has to be
taken from inside of a character. -/
def ofSetting (setting : Option Text.Bytes) : Option LogFilter :=
  match setting.bind Text.decode with
  | none => some default
  | some text =>
      match read text with
      | .ok filter => some filter
      | .error .malformed => some default
      | .error .dividedCharacter => none

/-- The directives that decide on an event by itself. -/
def candidates (filter : LogFilter) (event : Event) : List Directive :=
  filter.directives.filter fun directive => directive.isPlain && directive.coversEvent event

/-- The most specific of the directives that decide on an event by itself, and
the last one of several that are equally specific. -/
def decisive? (filter : LogFilter) (event : Event) : Option Directive :=
  (filter.candidates event).foldl Directive.prefer none

/-- The directives that depend on spans, without those that are replaced. -/
def scopedDirectives (filter : LogFilter) : List Directive :=
  filter.directives.reverse.foldl
    (fun kept directive =>
      if directive.isScoped && !kept.any directive.sameAim then directive :: kept else kept)
    []

def spanDepth (filter : LogFilter) (span : Span) : Nat :=
  (filter.scopedDirectives.filter fun directive =>
    directive.coversSpan span && directive.demands.all fun demand => demand.metBy span).foldl
      (fun depth directive => max depth directive.depth) 0

/-- Spans count only if information is logged at all, or if a directive asks for
the value of a field. -/
def heedsSpans (filter : LogFilter) : Bool :=
  filter.directives.any fun directive =>
    Level.info.order ≤ directive.depth || directive.demands.any fun demand => demand.value?.isSome

def admits (filter : LogFilter) (record : Record) : Bool :=
  let order := record.event.level.order
  (filter.heedsSpans && record.scope.any fun span => order ≤ filter.spanDepth span) ||
    (filter.decisive? record.event).any fun directive => order ≤ directive.depth

end LogFilter

end AverageLinkage
