import AverageLinkage.Pattern.Basic

/-!
# Normal form of patterns

Patterns are put together so that equal parts are recognised.  Sequences and
choices have no others of their kind directly inside, a choice among single
characters is a set, and the repetition of a part that takes no character is
limited to one turn.

Options of a choice that begin alike share their beginning: `x y` or `x z`
becomes `x` and then `y` or `z`.  This settles the way through the beginning
before the option, which is the order of preference that a search follows.
-/

namespace AverageLinkage.Pattern

def ofSet (set : CharSet) (confined : Bool) : Pattern :=
  let set := set.normal
  .one set (confined && !set.isSingle && set != .none)

def isLetter : Pattern → Bool
  | .one set _ => set.isSingle
  | _ => false

/-! ## Sequences -/

def parts : Pattern → List Pattern
  | .empty => []
  | .sequence first second => first.parts ++ second.parts
  | pattern => [pattern]

def chain : List Pattern → Pattern
  | [] => .empty
  | [part] => part
  | part :: rest => .sequence part (chain rest)

def sequenceAll (patterns : List Pattern) : Pattern :=
  chain (patterns.flatMap parts)

/-- The parts of a pattern, where neighbouring letters make up one word. -/
def words (pattern : Pattern) : List (List Pattern) :=
  pattern.parts.splitBy fun left right => left.isLetter && right.isLetter

/-! ## Choices -/

def options : Pattern → List Pattern
  | .choice left right => left.options ++ right.options
  | pattern => [pattern]

def branch : List Pattern → Pattern
  | [] => never
  | [option] => option
  | option :: rest => .choice option (branch rest)

def set? : Pattern → Option CharSet
  | .one set _ => some set
  | _ => none

/-- The set that options make up if all of them are letters, or if all of them are
sets and none is a letter. -/
def setOf? (options : List Pattern) : Option Pattern := do
  let sets ← options.mapM set?
  if sets.all CharSet.isSingle || sets.all (!CharSet.isSingle ·) then
    some (ofSet (sets.foldr .union .none) false)
  else none

/-- A choice among options that have no beginning in common. -/
def alternatives : List Pattern → Pattern
  | [option] => option
  | options => (setOf? options).getD (branch options)

def commonStart {α : Type} [DecidableEq α] : List α → List α → List α
  | left :: lefts, right :: rights =>
      if left = right then left :: commonStart lefts rights else []
  | _, _ => []

/-- Share the beginning of options, if each has several words and they begin with
the same. -/
def shareStart? (options : List Pattern) : Option Pattern :=
  match options.map words with
  | first :: others =>
      let start := others.foldl commonStart first
      if start.isEmpty || (first :: others).any (·.length < 2) then none
      else
        let rests := (first :: others).map fun words =>
          sequenceAll (words.drop start.length).flatten
        some (sequenceAll (start.flatten ++ [alternatives (rests.flatMap Pattern.options)]))
  | [] => none

def choiceAll (patterns : List Pattern) : Pattern :=
  match patterns.flatMap options with
  | [option] => option
  | options => ((setOf? options).or (shareStart? options)).getD (branch options)

/-! ## Repetitions -/

def zeroOrMore (greedy : Bool) (body : Pattern) : Pattern :=
  if body.isIdle then .optional greedy body else .anyTimes greedy body

def oneOrMore (greedy : Bool) (body : Pattern) : Pattern :=
  if body.isIdle then body else .repeated greedy body

end AverageLinkage.Pattern
