import AverageLinkage.Pattern.Escape
import AverageLinkage.Pattern.Nested

/-!
# Sets in brackets

A set in brackets lists characters, ranges and classes, and other sets in
brackets.  It can be negated, and `&&`, `--` and `~~` take what stands on both
sides, on the left only, or on one side only.  An operation takes everything
on its left for its left side.
-/

namespace AverageLinkage.Pattern

inductive SetOperation where
  | inter
  | diff
  | symmDiff
  deriving DecidableEq, Repr

def SetOperation.apply : SetOperation → CharSet → CharSet → CharSet
  | .inter => .inter
  | .diff => .diff
  | .symmDiff => .symmDiff

/-- What surrounds the part of a set that is being read. -/
structure Bracket where
  /-- What the set around this one holds so far, the last item first. -/
  outer : List (Nested CharSet) := []
  negated : Bool
  /-- An operation that waits for its right side. -/
  pending : Option (SetOperation × Nested CharSet) := none
  deriving DecidableEq, Repr

/-- The set that items make up, after the operation that waits for them. -/
def Bracket.settle (bracket : Bracket) (items : List (Nested CharSet)) : Nested CharSet :=
  let set := Nested.join (·.foldr .union .none) items
  match bracket.pending with
  | none => set
  | some (operation, left) => Nested.pair operation.apply left set

/-- Hyphens at the beginning of a set stand for themselves. -/
def leadingHyphens (settings : Settings) (hyphen : CharSet) (items : List (Nested CharSet)) :
    (text : List Char) → List (Nested CharSet) × List Char
  | '-' :: rest =>
      leadingHyphens settings hyphen ({ value := hyphen } :: items) (skip settings rest)
  | text => (items, text)
termination_by text => text.length
decreasing_by exact Nat.lt_succ_of_le (length_skip_le settings rest)

theorem length_leadingHyphens_le (settings : Settings) (hyphen : CharSet)
    (items : List (Nested CharSet)) (text : List Char) :
    (leadingHyphens settings hyphen items text).2.length ≤ text.length := by
  fun_induction leadingHyphens settings hyphen items text with
  | case1 items rest ih =>
      have hskip := length_skip_le settings rest
      rw [List.length_cons]
      omega
  | case2 => exact Nat.le_refl _

/-- A circumflex at the beginning of a set or class stands for all others. -/
def negation : List Char → Bool × List Char
  | '^' :: rest => (true, rest)
  | text => (false, text)

theorem length_negation_le (text : List Char) : (negation text).2.length ≤ text.length := by
  unfold negation
  split
  · exact Nat.le_succ _
  · exact Nat.le_refl _

/-- Read from after an opening bracket: whether the set is negated, and what
stands first, which may be a closing bracket or hyphens that mean themselves. -/
def openBracket? (settings : Settings) (text : List Char) :
    Option ((Bool × List (Nested CharSet)) × List Char) := do
  let (negated, text) := negation (skip settings text)
  match skip settings text with
  | '-' :: rest =>
      let (items, rest) := leadingHyphens settings (← charSet? settings '-' false) [] ('-' :: rest)
      return ((negated, items), rest)
  | ']' :: rest =>
      return ((negated, [{ value := ← charSet? settings ']' false }]), skip settings rest)
  | text => return ((negated, []), text)

theorem leaves_openBracket? (settings : Settings) (text : List Char) :
    Leaves text.length (openBracket? settings text) := by
  have hskip := length_skip_le settings text
  have hnegation := length_negation_le (skip settings text)
  have hagain := length_skip_le settings (negation (skip settings text)).2
  unfold openBracket?
  dsimp only
  split
  · next rest hrest =>
    apply Leaves.bind
    intro hyphen _
    have hhyphens := length_leadingHyphens_le settings hyphen [] ('-' :: rest)
    rw [← hrest] at hhyphens
    exact leaves_some.mpr (by rw [← hrest]; omega)
  · next rest hrest =>
    apply Leaves.bind
    intro closing _
    have hlast := length_skip_le settings rest
    rw [hrest, List.length_cons] at hagain
    exact leaves_some.mpr (by omega)
  · exact leaves_some.mpr (by omega)

/-- Read a named class such as `[:alpha:]` from after its opening bracket. -/
def asciiClass? : List Char → Option ((Bool × List (Char × Char)) × List Char)
  | ':' :: rest =>
      let (negated, rest) := negation rest
      match rest.dropWhile (· != ':') with
      | ':' :: ']' :: after =>
          (CharSet.ofClassName? (String.ofList (rest.takeWhile (· != ':')))).map fun ranges =>
            ((negated, ranges), after)
      | _ => none
  | _ => none

theorem leaves_asciiClass? (text : List Char) : Leaves text.length (asciiClass? text) := by
  unfold asciiClass?
  split
  · next rest =>
    have hnegation := length_negation_le rest
    have hdrop := (List.dropWhile_suffix (l := (negation rest).2) (· != ':')).length_le
    dsimp only
    split
    · next after hafter =>
      apply Leaves.map
      intro ranges _
      simp only [hafter, List.length_cons] at hdrop ⊢
      omega
    · exact leaves_none
  · exact leaves_none

/-- One item of a set: a character, perhaps with a backslash, or a class. -/
def setItem? (settings : Settings) : List Char → Option (Escape × List Char)
  | [] => none
  | '\\' :: rest => escape? settings rest
  | char :: rest => some (.char char false, rest)

theorem leaves_setItem? (settings : Settings) (text : List Char) :
    Leaves (text.length - 1) (setItem? settings text) := by
  unfold setItem?
  split
  · exact leaves_none
  · exact leaves_escape? settings _
  · exact leaves_some.mpr (Nat.le_refl _)

/-- The set of an item that is not part of a range. -/
def itemSet? (settings : Settings) : Escape → Option CharSet
  | .char char coded =>
      if !settings.unicode && 128 ≤ char.toNat then none else charSet? settings char coded
  | .named name negated => letterSet? settings name negated
  | _ => none

/-- Read an item or a range of a set. -/
def setRange? (settings : Settings) (text : List Char) : Option (CharSet × List Char) := do
  let (first, rest) ← setItem? settings text
  let alone : Option (CharSet × List Char) := do
    return (← itemSet? settings first, skip settings rest)
  match skip settings rest with
  | '-' :: after =>
      match skip settings after with
      | [] => none
      | ']' :: _ => alone
      | '-' :: _ => alone
      | after =>
          let (last, rest) ← setItem? settings after
          match first, last with
          | .char first _, .char last _ => return (← rangeSet? settings first last, rest)
          | _, _ => none
  | _ => alone

theorem leaves_setRange? (settings : Settings) (text : List Char) :
    Leaves (text.length - 1) (setRange? settings text) := by
  apply Leaves.bind
  rintro ⟨first, rest⟩ hfirst
  have hrest := leaves_setItem? settings text first rest hfirst
  have hskip := length_skip_le settings rest
  have halone : Leaves (text.length - 1)
      ((itemSet? settings first).bind fun set => some (set, skip settings rest)) :=
    Leaves.bind fun set _ => leaves_some.mpr (by omega)
  dsimp only
  split
  · next after hafter =>
    have hagain := length_skip_le settings after
    rw [hafter, List.length_cons] at hskip
    split
    · exact leaves_none
    · exact halone
    · exact halone
    · apply Leaves.bind
      rintro ⟨last, left⟩ hlast
      have hleft := leaves_setItem? settings _ last left hlast
      dsimp only
      split
      · exact Leaves.bind fun set _ => leaves_some.mpr (by omega)
      · exact leaves_none
  · exact halone

structure OpenSet where
  bracket : Bracket
  /-- The brackets around it, innermost first. -/
  around : List Bracket := []
  /-- What the set holds so far, the last item first. -/
  items : List (Nested CharSet)
  deriving DecidableEq, Repr

namespace OpenSet

def add (current : OpenSet) (item : CharSet) : OpenSet :=
  { current with items := { value := item } :: current.items }

/-- Let an operation wait for what follows. -/
def operate (current : OpenSet) (operation : SetOperation) : OpenSet :=
  let left := current.bracket.settle current.items
  { current with bracket.pending := some (operation, left), items := [] }

def enter (current : OpenSet) (negated : Bool) (items : List (Nested CharSet)) : OpenSet :=
  { bracket := { outer := current.items, negated }
    around := current.bracket :: current.around
    items }

/-- Close a bracket; the outermost one gives the whole set. -/
def close? (settings : Settings) (current : OpenSet) : Option (OpenSet ⊕ Nested CharSet) := do
  let inner := current.bracket.settle current.items
  let set ← complement? settings current.bracket.negated inner.value
  let closed := inner.wrap fun _ => set
  match current.around with
  | [] => return .inr closed
  | bracket :: around =>
      return .inl { bracket, around, items := closed :: current.bracket.outer }

def step? (settings : Settings) (current : OpenSet) (char : Char) (rest : List Char) :
    Option ((OpenSet ⊕ Nested CharSet) × List Char) :=
  match char, rest with
  | '[', rest =>
      match asciiClass? rest with
      | some ((negated, ranges), after) => do
          return (.inl (current.add (← classSet? settings ranges negated)), after)
      | none => do
          let ((negated, items), rest) ← openBracket? settings rest
          return (.inl (current.enter negated items), rest)
  | ']', rest => do return (← current.close? settings, rest)
  | '&', '&' :: rest => some (.inl (current.operate .inter), rest)
  | '-', '-' :: rest => some (.inl (current.operate .diff), rest)
  | '~', '~' :: rest => some (.inl (current.operate .symmDiff), rest)
  | char, rest => do
      let (item, rest) ← setRange? settings (char :: rest)
      return (.inl (current.add item), rest)

theorem leaves_step? (settings : Settings) (current : OpenSet) (char : Char)
    (rest : List Char) : Leaves rest.length (current.step? settings char rest) := by
  unfold step?
  split
  · split
    · next negated ranges after hclass =>
      have hafter := leaves_asciiClass? _ _ after hclass
      exact Leaves.bind fun set _ => leaves_some.mpr hafter
    · apply Leaves.bind
      rintro ⟨⟨negated, items⟩, left⟩ hopen
      exact leaves_some.mpr (leaves_openBracket? settings _ _ left hopen)
  · exact Leaves.bind fun outcome _ => leaves_some.mpr (Nat.le_refl _)
  · exact leaves_some.mpr (Nat.le_succ _)
  · exact leaves_some.mpr (Nat.le_succ _)
  · exact leaves_some.mpr (Nat.le_succ _)
  · apply Leaves.bind
    rintro ⟨item, left⟩ hitem
    exact leaves_some.mpr (leaves_setRange? settings _ item left hitem)

def reader (settings : Settings) : Reader OpenSet (Nested CharSet) where
  skip _ text := Pattern.skip settings text
  finish? _ := none
  step? current char rest := current.step? settings char rest
  length_skip_le _ text := length_skip_le settings text
  leaves_step? current char rest := current.leaves_step? settings char rest

end OpenSet

/-- Read a set from after its opening bracket. -/
def bracketed? (settings : Settings) (text : List Char) : Option (Nested CharSet × List Char) := do
  let ((negated, items), rest) ← openBracket? settings text
  (OpenSet.reader settings).read? { bracket := { negated }, items } rest

theorem leaves_bracketed? (settings : Settings) (text : List Char) :
    Leaves text.length (bracketed? settings text) := by
  apply Leaves.bind
  rintro ⟨⟨negated, items⟩, rest⟩ hopen
  have hrest := leaves_openBracket? settings text _ rest hopen
  exact ((OpenSet.reader settings).leaves_read? _ rest).mono hrest

end AverageLinkage.Pattern
