import AverageLinkage.Pattern.Bracket
import AverageLinkage.Text.Alphanumeric

/-!
# The text of patterns

Patterns are written in the usual notation: `|` for choices, `*`, `+` and `?`
for repetitions, lazy ones with a further `?`, parentheses, sets in brackets,
`.` for any character of a line, `^` and `$` for the ends, and a backslash before
what would otherwise have a meaning.  Settings such as `(?s)` change the meaning
of what follows.  Counts in braces are not part of the notation.

Constructs stand in one another at most 250 deep.  Groups, repetitions, sets in
brackets and set operations are constructs, and so are choices, sequences and
the contents of a set that have more than one part.
-/

namespace AverageLinkage.Pattern

/-! ## Groups -/

inductive Opening where
  /-- A group; `apart` tells that it stays apart from what stands around it. -/
  | group (settings : Settings) (apart : Bool)
  /-- A group with a name, which no other group may have; it stays apart. -/
  | named (name : List Char)
  /-- No group: the settings change from here on. -/
  | change (settings : Settings)
  deriving DecidableEq, Repr

def isNameChar (char : Char) : Bool :=
  char == '_' || char == '.' || char == '[' || char == ']' || Text.isAlphanumeric char

def isName : List Char → Bool
  | [] => false
  | char :: rest => (char == '_' || Text.isAlphabetic char) && rest.all isNameChar

def groupName? (text : List Char) : Option (Opening × List Char) :=
  let name := text.takeWhile (· != '>')
  match text.dropWhile (· != '>') with
  | '>' :: rest => if isName name then some (.named name, rest) else none
  | _ => none

theorem leaves_groupName? (text : List Char) : Leaves text.length (groupName? text) := by
  have hdrop := (List.dropWhile_suffix (l := text) (· != '>')).length_le
  unfold groupName?
  dsimp only
  split
  · next rest hrest =>
    rw [hrest, List.length_cons] at hdrop
    split
    · exact leaves_some.mpr (by omega)
    · exact leaves_none
  · exact leaves_none

def isSettingsEnd (char : Char) : Bool :=
  char == ':' || char == ')'

def opening? (settings : Settings) (text : List Char) : Option (Opening × List Char) :=
  match skip settings text with
  | '?' :: 'P' :: '<' :: rest => groupName? rest
  | '?' :: '<' :: rest => groupName? rest
  | '?' :: rest =>
      let letters := rest.takeWhile fun char => !isSettingsEnd char
      match rest.dropWhile fun char => !isSettingsEnd char with
      | ':' :: after => (settings.adjust? letters).map fun changed => (.group changed false, after)
      | ')' :: after =>
          if letters.isEmpty then none
          else (settings.adjust? letters).map fun changed => (.change changed, after)
      | _ => none
  | text => some (.group settings true, text)

theorem leaves_opening? (settings : Settings) (text : List Char) :
    Leaves text.length (opening? settings text) := by
  have hskip := length_skip_le settings text
  unfold opening?
  split
  · next rest hrest =>
    simp only [hrest, List.length_cons] at hskip
    exact (leaves_groupName? rest).mono (by omega)
  · next rest hrest =>
    simp only [hrest, List.length_cons] at hskip
    exact (leaves_groupName? rest).mono (by omega)
  · next rest _ _ hrest =>
    have hdrop := (List.dropWhile_suffix (l := rest) fun char => !isSettingsEnd char).length_le
    rw [hrest, List.length_cons] at hskip
    dsimp only
    split
    · next after hafter =>
      rw [hafter, List.length_cons] at hdrop
      exact Leaves.map fun changed _ => by dsimp only; omega
    · next after hafter =>
      rw [hafter, List.length_cons] at hdrop
      split
      · exact leaves_none
      · exact Leaves.map fun changed _ => by dsimp only; omega
    · exact leaves_none
  · exact leaves_some.mpr hskip

structure Group where
  settings : Settings
  /-- Where a group that stays apart begins, by the number of characters after it. -/
  start : Option Nat := none
  /-- The choices before this one, the last one first. -/
  choices : List (Nested Pattern) := []
  /-- The parts of this choice, the last one first.  A change of the settings is a
  part, but no pattern, and cannot be repeated. -/
  parts : List (Nested (Option Pattern)) := []
  deriving DecidableEq, Repr

namespace Group

def push (group : Group) (pattern : Nested Pattern) : Group :=
  { group with parts := { pattern with value := some pattern.value } :: group.parts }

def change (group : Group) (settings : Settings) : Group :=
  { group with settings, parts := { value := none } :: group.parts }

def currentChoice (group : Group) : Nested Pattern :=
  Nested.join (fun parts => sequenceAll (parts.filterMap id)) group.parts.reverse

def nextChoice (group : Group) : Group :=
  { group with choices := group.currentChoice :: group.choices, parts := [] }

def content (group : Group) : Nested Pattern :=
  Nested.join choiceAll (group.currentChoice :: group.choices).reverse

/-- The group as a part of what stands around it. -/
def closed (group : Group) : Nested Pattern :=
  group.content.wrap fun body => group.start.elim body fun start => .enclosed start body

def repeatLast? (group : Group) (repetition : Bool → Pattern → Pattern) (greedy : Bool) :
    Option Group :=
  match group.parts with
  | { value := some body, depth } :: parts =>
      let repeated := Nested.wrap (repetition (greedy != group.settings.swapGreed))
        { value := body, depth }
      some ({ group with parts }.push repeated)
  | _ => none

end Group

def placeOf? (settings : Settings) : Escape → Option Place
  | .textStart => some .textStart
  | .textEnd => some .textEnd
  | .wordEdge => if settings.unicode then none else some .wordEdge
  | .noWordEdge => if settings.unicode then none else some .noWordEdge
  | .wordStart => if settings.unicode then none else some .wordStart
  | .wordEnd => if settings.unicode then none else some .wordEnd
  | _ => none

def oneOf (settings : Settings) (set : CharSet) : Pattern :=
  ofSet set !settings.unicode

def escapePattern? (settings : Settings) : Escape → Option Pattern
  | .char char coded => (charSet? settings char coded).map (oneOf settings)
  | .named name negated => (letterSet? settings name negated).map (oneOf settings)
  | escape => (placeOf? settings escape).map .place

def lineStartOf (settings : Settings) : Place :=
  if !settings.multiLine then .textStart
  else if settings.carriageReturn then .lineStartReturn
  else .lineStart

def lineEndOf (settings : Settings) : Place :=
  if !settings.multiLine then .textEnd
  else if settings.carriageReturn then .lineEndReturn
  else .lineEnd

/-- A question mark right after a repetition makes it lazy. -/
def laziness : List Char → Bool × List Char
  | '?' :: rest => (false, rest)
  | text => (true, text)

theorem length_laziness_le (text : List Char) : (laziness text).2.length ≤ text.length := by
  unfold laziness
  split
  · exact Nat.le_succ _
  · exact Nat.le_refl _

/-! ## Reading -/

structure Nesting where
  group : Group
  /-- The groups around it, innermost first. -/
  around : List Group := []
  /-- The names of groups so far. -/
  names : List (List Char) := []
  deriving DecidableEq, Repr

namespace Nesting

def push (nesting : Nesting) (pattern : Nested Pattern) : Nesting :=
  { nesting with group := nesting.group.push pattern }

/-- Go on after a parenthesis that opened at `start`. -/
def open? (nesting : Nesting) (start : Nat) : Opening → Option Nesting
  | .group settings apart =>
      some { nesting with
        group := { settings, start := if apart then some start else none }
        around := nesting.group :: nesting.around }
  | .named name =>
      if nesting.names.contains name then none
      else
        some
          { group := { settings := nesting.group.settings, start := some start }
            around := nesting.group :: nesting.around
            names := name :: nesting.names }
  | .change settings => some { nesting with group := nesting.group.change settings }

def close? (nesting : Nesting) : Option Nesting :=
  match nesting.around with
  | [] => none
  | group :: around => some { nesting with group := group.push nesting.group.closed, around }

/-- Everything is read once no parenthesis is open. -/
def finish? (nesting : Nesting) : Option (Nested Pattern) :=
  if nesting.around.isEmpty then some nesting.group.content else none

def repeatLast? (nesting : Nesting) (repetition : Bool → Pattern → Pattern) (rest : List Char) :
    Option (Nesting × List Char) := do
  let (greedy, rest) := laziness rest
  return ({ nesting with group := ← nesting.group.repeatLast? repetition greedy }, rest)

theorem leaves_repeatLast? (nesting : Nesting) (repetition : Bool → Pattern → Pattern)
    (rest : List Char) : Leaves rest.length (nesting.repeatLast? repetition rest) :=
  Leaves.bind fun _ _ => leaves_some.mpr (length_laziness_le rest)

def next? (nesting : Nesting) (char : Char) (rest : List Char) : Option (Nesting × List Char) :=
  let settings := nesting.group.settings
  match char with
  | '(' => do
      let (opening, rest) ← opening? settings rest
      return (← nesting.open? rest.length opening, rest)
  | ')' => do return (← nesting.close?, rest)
  | '|' => some ({ nesting with group := nesting.group.nextChoice }, rest)
  | '[' => do
      let (set, rest) ← bracketed? settings rest
      return (nesting.push { value := oneOf settings set.value, depth := set.depth }, rest)
  | '?' => nesting.repeatLast? .optional rest
  | '*' => nesting.repeatLast? zeroOrMore rest
  | '+' => nesting.repeatLast? oneOrMore rest
  | '\x7b' => none
  | '\\' => do
      let (escape, rest) ← escape? settings rest
      return (nesting.push { value := ← escapePattern? settings escape }, rest)
  | '.' => do return (nesting.push { value := oneOf settings (← dot? settings) }, rest)
  | '^' => some (nesting.push { value := .place (lineStartOf settings) }, rest)
  | '$' => some (nesting.push { value := .place (lineEndOf settings) }, rest)
  | char => do
      return (nesting.push { value := oneOf settings (← charSet? settings char false) }, rest)

theorem leaves_next? (nesting : Nesting) (char : Char) (rest : List Char) :
    Leaves rest.length (nesting.next? char rest) := by
  -- A character by itself leaves all that follows it.
  have alone : ∀ {α : Type} (part? : Option α) (next : α → Nesting),
      Leaves rest.length (part?.bind fun value => some (next value, rest)) := by
    intro α part? next
    exact Leaves.bind fun value _ => leaves_some.mpr (Nat.le_refl _)
  unfold next?
  dsimp only
  split
  · apply Leaves.bind
    rintro ⟨opening, left⟩ hopening
    have hleft := leaves_opening? _ rest opening left hopening
    exact Leaves.bind fun next _ => leaves_some.mpr hleft
  · exact alone _ _
  · exact leaves_some.mpr (Nat.le_refl _)
  · apply Leaves.bind
    rintro ⟨set, left⟩ hset
    exact leaves_some.mpr (leaves_bracketed? _ rest set left hset)
  · exact nesting.leaves_repeatLast? _ rest
  · exact nesting.leaves_repeatLast? _ rest
  · exact nesting.leaves_repeatLast? _ rest
  · exact leaves_none
  · apply Leaves.bind
    rintro ⟨escape, left⟩ hescape
    have hleft := leaves_escape? _ rest escape left hescape
    exact Leaves.bind fun pattern _ => leaves_some.mpr hleft
  · exact alone _ _
  · exact leaves_some.mpr (Nat.le_refl _)
  · exact leaves_some.mpr (Nat.le_refl _)
  · exact alone _ _

def reader : Reader Nesting (Nested Pattern) where
  skip nesting text := Pattern.skip nesting.group.settings text
  finish? := finish?
  step? nesting char rest := (nesting.next? char rest).map fun (next, left) => (.inl next, left)
  length_skip_le nesting text := length_skip_le nesting.group.settings text
  leaves_step? nesting char rest :=
    Leaves.map fun (next, left) hnext => nesting.leaves_next? char rest next left hnext

end Nesting

def depthLimit : Nat := 250

def read? (text : List Char) : Option Pattern := do
  let (pattern, _) ← Nesting.reader.read? { group := { settings := {} } } text
  if pattern.depth ≤ depthLimit then some pattern.value else none

end AverageLinkage.Pattern
