import AverageLinkage.Pattern.CharSet

/-!
# Patterns

A pattern describes texts, in an order of preference: a choice prefers its
left side, a greedy repetition goes on as long as it can, and a lazy one stops
as soon as it can.
-/

namespace AverageLinkage

/-- A condition on the place between two bytes of a text. -/
inductive Place where
  | textStart
  | textEnd
  | lineStart
  | lineEnd
  /-- Like the two before, but a carriage return, alone or with a line feed after
  it, ends a line as well. -/
  | lineStartReturn
  | lineEndReturn
  | wordEdge
  | noWordEdge
  | wordStart
  | wordEnd
  deriving DecidableEq, Repr

namespace Place

def lineFeed : UInt8 := 10

def carriageReturn : UInt8 := 13

/-- Whether a byte is an ASCII letter, a digit or an underscore. -/
def isWordByte (byte : UInt8) : Bool :=
  (48 ≤ byte && byte ≤ 57) || (65 ≤ byte && byte ≤ 90) || byte == 95 || (97 ≤ byte && byte ≤ 122)

/-- Whether the condition holds between two bytes; the ends of the text have no
byte on one side. -/
def holds (place : Place) (before after : Option UInt8) : Bool :=
  let wordBefore := before.any isWordByte
  let wordAfter := after.any isWordByte
  match place with
  | .textStart => before.isNone
  | .textEnd => after.isNone
  | .lineStart => before.isNone || before == some lineFeed
  | .lineEnd => after.isNone || after == some lineFeed
  | .lineStartReturn =>
      before.isNone || before == some lineFeed ||
        (before == some carriageReturn && after != some lineFeed)
  | .lineEndReturn =>
      after.isNone || after == some carriageReturn ||
        (after == some lineFeed && before != some carriageReturn)
  | .wordEdge => wordBefore != wordAfter
  | .noWordEdge => wordBefore == wordAfter
  | .wordStart => !wordBefore && wordAfter
  | .wordEnd => wordBefore && !wordAfter

end Place

inductive Pattern where
  | empty
  /-- One character of a set in normal form.  A set of several characters that are
  confined to ASCII is never taken for one of characters that are not. -/
  | one (set : CharSet) (confined : Bool)
  | place (condition : Place)
  | sequence (first second : Pattern)
  | choice (left right : Pattern)
  /-- Nothing or the body once. -/
  | optional (greedy : Bool) (body : Pattern)
  /-- The body any number of times. -/
  | anyTimes (greedy : Bool) (body : Pattern)
  /-- The body once or more often. -/
  | repeated (greedy : Bool) (body : Pattern)
  /-- A group that stays apart from what stands around it.  Where it begins tells it
  from every other group. -/
  | enclosed (start : Nat) (body : Pattern)
  deriving DecidableEq, Repr

namespace Pattern

def never : Pattern :=
  .one .none false

/-- The least number of characters that a pattern takes; unknown if a part of the
pattern fits no text. -/
def leastLength? : Pattern → Option Nat
  | .empty => some 0
  | .one set _ => if set = .none then none else some 1
  | .place _ => some 0
  | .sequence first second => do return (← first.leastLength?) + (← second.leastLength?)
  | .choice left right => do return Nat.min (← left.leastLength?) (← right.leastLength?)
  | .optional _ body => body.leastLength?.map fun _ => 0
  | .anyTimes _ body => body.leastLength?.map fun _ => 0
  | .repeated _ body => body.leastLength?
  | .enclosed _ body => body.leastLength?

def isConsuming (pattern : Pattern) : Bool :=
  pattern.leastLength?.any (0 < ·)

/-- Whether a pattern consists of conditions only and takes no character. -/
def isIdle : Pattern → Bool
  | .empty => true
  | .one .. => false
  | .place _ => true
  | .sequence first second => first.isIdle && second.isIdle
  | .choice left right => left.isIdle && right.isIdle
  | .optional _ body => body.isIdle
  | .anyTimes .. => false
  | .repeated .. => false
  | .enclosed _ body => body.isIdle

end Pattern

end AverageLinkage
