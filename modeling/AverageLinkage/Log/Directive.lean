import AverageLinkage.Journal
import AverageLinkage.Number.Decimal
import AverageLinkage.Number.Natural
import AverageLinkage.Pattern.Machine
import AverageLinkage.Pattern.Reader
import AverageLinkage.Text.Alphanumeric
import AverageLinkage.Text.Blank

/-!
# Directives on what is logged

A directive such as `topic[span{field=value}]=level` allows events down to a
level.  It can be confined to the topics that begin with a text, and to the
work within spans of a name or with certain fields.  All parts are optional; a
single word is a level if it can be one, and otherwise a topic.
-/

namespace AverageLinkage

/-- What a directive asks of the value of a field. -/
inductive Expectation where
  | flag (value : Bool)
  | natural (number : Nat)
  | negative (magnitude : Nat)
  | real (number : Float)
  | undefined
  /-- A text in which the match of a pattern reaches the end. -/
  | text (source : String) (pattern : Pattern)
  deriving DecidableEq, Repr

namespace Expectation

/-- Two real numbers that differ by less than this are taken for equal: the
distance from one to the next larger double. -/
def tolerance : Float := Float.ofBits 0x3cb0000000000000

/-- Largest magnitude of a negative number. -/
def negativeLimit : Nat := 0x8000000000000000

def negative? : List Char → Option Expectation
  | '-' :: digits =>
      if Natural.isNumeral digits && Natural.ofDigits digits ≤ negativeLimit then
        some (.negative (Natural.ofDigits digits))
      else none
  | _ => none

def real? (text : List Char) : Option Expectation :=
  (Decimal.read? text).map fun number => if number.isNaN then .undefined else .real number

def pattern? (text : List Char) : Option Expectation :=
  (Pattern.read? text).map (.text (String.ofList text))

/-- Read a flag, a whole number or a real number; everything else is a pattern for
texts. -/
def read? (text : List Char) : Option Expectation :=
  if text = "true".toList then some (.flag true)
  else if text = "false".toList then some (.flag false)
  else
    ((Natural.read? Natural.wordLimit text).map .natural).or
      ((negative? text).or ((real? text).or (pattern? text)))

/-- Whether a value is of the expected kind and agrees. -/
def admits : Expectation → FieldValue → Bool
  | .flag expected, .flag value => expected == value
  | .natural expected, .count number => expected == number
  | .real expected, .real number => (number - expected).abs < tolerance
  | .undefined, .real number => number.isNaN
  | .text _ pattern, .text content => pattern.matchesEnd content
  | _, _ => false

end Expectation

structure FieldDemand where
  name : String
  value? : Option Expectation := none
  deriving DecidableEq, Repr

namespace FieldDemand

/-- Read a name, or a name and a value with an equals sign between them. -/
def read? (text : List Char) : Option FieldDemand :=
  match Text.pieces (· == '=') text with
  | name :: value :: _ =>
      (Expectation.read? value).map fun expectation =>
        { name := String.ofList name, value? := some expectation }
  | _ => some { name := String.ofList text }

/-- Whether the span began with the field at the value that is asked for, if
one is. -/
def metBy (demand : FieldDemand) (span : Span) : Bool :=
  match demand.value? with
  | none => true
  | some expectation =>
      span.fields.any fun (name, value) => name == demand.name && expectation.admits value

end FieldDemand

structure Directive where
  /-- The beginning of the topics that are meant. -/
  topic? : Option String := none
  span? : Option String := none
  demands : List FieldDemand := []
  /-- The order of the last level that is allowed. -/
  depth : Nat
  deriving DecidableEq, Repr

namespace Directive

/-- The names of the depths, from silence to everything. -/
def depthNames : List String :=
  ["off", "error", "warn", "info", "debug", "trace"]

def fullDepth : Nat := 5

/-- Read a depth as a number, or as a name in any ASCII case. -/
def depth? (text : List Char) : Option Nat :=
  match Natural.read? Natural.wordLimit text with
  | some number => if number ≤ fullDepth then some number else none
  | none => depthNames.findIdx? (· == String.ofList (text.map Char.toLower))

inductive Fault where
  | malformed
  /-- A part begins or ends inside of a character. -/
  | dividedCharacter
  deriving DecidableEq, Repr

/-- What is being read, with the position at which it began. -/
inductive Reading where
  | start
  | word (first : Nat)
  | span (first : Nat)
  | field (first : Nat)
  | fieldsRead
  | spanRead
  | depth (first : Nat)
  deriving DecidableEq, Repr

/-- Whether no character of a text reaches across a position. -/
def isBetweenChars (text : Text.Bytes) (position : Nat) : Bool :=
  match text[position]? with
  | none => true
  | some byte => byte < 0x80 || 0xc0 ≤ byte

/-- The part of a text between two positions, which count bytes. -/
def part (text : Text.Bytes) (first last : Nat) : Except Fault (List Char) :=
  if isBetweenChars text first && isBetweenChars text last then
    match Text.decode ((text.drop first).take (last - first)) with
    | some chars => .ok chars
    | none => .error .dividedCharacter
  else .error .dividedCharacter

def beginsWord (char : Char) : Bool :=
  char == '-' || char == ':' || char == '_' || Text.isAlphanumeric char

/-- Read one character.  The parts of the directive are taken from `text`. -/
def step (text : Text.Bytes) (position : Nat) (directive : Directive) (reading : Reading)
    (char : Char) : Except Fault (Directive × Reading) :=
  match reading with
  | .start =>
      if char = '[' then .ok (directive, .span (position + 1))
      else if beginsWord char then .ok (directive, .word position)
      else .error .malformed
  | .word first =>
      if char = '=' then do
        let topic ← part text first position
        return ({ directive with topic? := some (String.ofList topic) }, .depth (position + 1))
      else if char = '[' then do
        let topic ← part text first position
        return ({ directive with topic? := some (String.ofList topic) }, .span (position + 1))
      else .ok (directive, reading)
  | .span first =>
      if char = ']' then do
        let name ← part text first position
        return ({ directive with span? := some (String.ofList name) }, .spanRead)
      else if char = '\x7b' then do
        let name ← part text first position
        let span? := if name.isEmpty then none else some (String.ofList name)
        return ({ directive with span? }, .field (position + 1))
      else .ok (directive, reading)
  | .field first =>
      if char = '\x7d' then do
        let field ← part text first position
        if field.isEmpty then throw .malformed
        match FieldDemand.read? field with
        | some demand => return ({ directive with demands := [demand] }, .fieldsRead)
        | none => throw .malformed
      else .ok (directive, reading)
  | .fieldsRead => if char = ']' then .ok (directive, .spanRead) else .error .malformed
  | .spanRead =>
      if char = '=' then .ok (directive, .depth (position + 1)) else .error .malformed
  | .depth _ => .ok (directive, reading)

/-- Take the end of the text for what is still being read. -/
def finish (text : Text.Bytes) (directive : Directive) : Reading → Except Fault Directive
  | .word first => do
      let word ← part text first text.length
      match depth? word with
      | some depth => return { directive with depth }
      | none => return { directive with topic? := some (String.ofList word) }
  | .depth first => do
      let word ← part text first text.length
      if word.isEmpty then return directive
      match depth? word with
      | some depth => return { directive with depth }
      | none => throw .malformed
  | .spanRead => .ok directive
  | _ => .error .malformed

def readFrom (text : Text.Bytes) (position : Nat) (directive : Directive) (reading : Reading) :
    List Char → Except Fault Directive
  | [] => finish text directive reading
  | char :: rest => do
      let (directive, reading) ← step text position directive reading char
      readFrom text (position + char.utf8Size) directive reading rest

/-- Read a directive.  Blanks around it are skipped, but its parts are taken
from the text at the same distance from the beginning as without them. -/
def read (text : List Char) : Except Fault Directive :=
  readFrom (Text.encode (String.ofList text)) 0 { depth := fullDepth } .start (Text.trim text)

end Directive

end AverageLinkage
