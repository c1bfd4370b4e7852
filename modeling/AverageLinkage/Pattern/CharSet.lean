/-!
# Sets of characters

A set is built from ranges of code points by the operations of set theory, and
is known by the characters it holds.  In normal form a set is the list of its
ranges, so that sets with the same characters are equal.
-/

namespace AverageLinkage

inductive CharSet where
  | none
  | range (first last : Nat)
  | union (left right : CharSet)
  | inter (left right : CharSet)
  | diff (left right : CharSet)
  | symmDiff (left right : CharSet)
  | compl (set : CharSet)
  deriving DecidableEq, Repr

namespace CharSet

def holdsCode : CharSet → Nat → Bool
  | .none, _ => false
  | .range first last, code => first ≤ code && code ≤ last
  | .union left right, code => left.holdsCode code || right.holdsCode code
  | .inter left right, code => left.holdsCode code && right.holdsCode code
  | .diff left right, code => left.holdsCode code && !right.holdsCode code
  | .symmDiff left right, code => left.holdsCode code != right.holdsCode code
  | .compl set, code => !set.holdsCode code

def contains (set : CharSet) (char : Char) : Bool :=
  set.holdsCode char.toNat

def singleton (char : Char) : CharSet :=
  .range char.toNat char.toNat

def between (first last : Char) : CharSet :=
  .range first.toNat last.toNat

def ofList (chars : List Char) : CharSet :=
  chars.foldr (fun char set => .union (singleton char) set) .none

@[simp]
theorem contains_union (left right : CharSet) (char : Char) :
    (union left right).contains char = (left.contains char || right.contains char) := rfl

theorem contains_singleton (held char : Char) :
    (singleton held).contains char = true ↔ char = held := by
  simp only [singleton, contains, holdsCode, Bool.and_eq_true, decide_eq_true_eq]
  constructor
  · intro h
    exact Char.toNat_inj.mp (by omega)
  · intro h
    subst h
    omega

/-! ## Normal form -/

/-- The code points from which on a set can hold other characters than before. -/
def bounds : CharSet → List Nat
  | .none => []
  | .range first last => [first, last + 1]
  | .union left right => left.bounds ++ right.bounds
  | .inter left right => left.bounds ++ right.bounds
  | .diff left right => left.bounds ++ right.bounds
  | .symmDiff left right => left.bounds ++ right.bounds
  | .compl set => set.bounds

/-- The ends of the code points, and of the gap among them that no character has. -/
def codeBounds : List Nat :=
  [0, 0xD800, 0xE000, 0x110000]

/-- Put a range before others; two that touch become one. -/
def consRange (first last : Nat) : List (Nat × Nat) → List (Nat × Nat)
  | [] => [(first, last)]
  | (next, stop) :: rest =>
      if last + 1 = next then (first, stop) :: rest else (first, last) :: (next, stop) :: rest

/-- The ranges of a set among bounds in ascending order.  Between two neighbouring
bounds nothing changes, so the first code point decides for all of them. -/
def rangesAmong (set : CharSet) : List Nat → List (Nat × Nat)
  | first :: next :: rest =>
      let ranges := set.rangesAmong (next :: rest)
      if first < next && decide first.isValidChar && set.holdsCode first then
        consRange first (next - 1) ranges
      else ranges
  | _ => []

def ranges (set : CharSet) : List (Nat × Nat) :=
  set.rangesAmong ((codeBounds ++ set.bounds).mergeSort fun left right => decide (left ≤ right))

def ofRanges : List (Nat × Nat) → CharSet
  | [] => .none
  | [(first, last)] => .range first last
  | (first, last) :: rest => .union (.range first last) (ofRanges rest)

def normal (set : CharSet) : CharSet :=
  ofRanges set.ranges

/-- Whether a set in normal form has one character only. -/
def isSingle : CharSet → Bool
  | .range first last => first == last
  | _ => false

/-! ## ASCII -/

/-- A range of ASCII characters with the letters of the other case. -/
def foldedRange (first last : Nat) : CharSet :=
  let shifted := fun (low high : Char) (shift : Nat → Nat) =>
    let begins := max first low.toNat
    let ends := min last high.toNat
    if begins ≤ ends then CharSet.range (shift begins) (shift ends) else .none
  .union (.range first last)
    (.union (shifted 'a' 'z' (· - 32)) (shifted 'A' 'Z' (· + 32)))

def ofClassName? (name : String) : Option (List (Char × Char)) :=
  match name with
  | "alnum" => some [('0', '9'), ('A', 'Z'), ('a', 'z')]
  | "alpha" => some [('A', 'Z'), ('a', 'z')]
  | "ascii" => some [('\x00', '\x7f')]
  | "blank" => some [('\t', '\t'), (' ', ' ')]
  | "cntrl" => some [('\x00', '\x1f'), ('\x7f', '\x7f')]
  | "digit" => some [('0', '9')]
  | "graph" => some [('!', '~')]
  | "lower" => some [('a', 'z')]
  | "print" => some [(' ', '~')]
  | "punct" => some [('!', '/'), (':', '@'), ('[', '\x60'), ('\x7b', '~')]
  | "space" => some [('\t', '\r'), (' ', ' ')]
  | "upper" => some [('A', 'Z')]
  | "word" => some [('0', '9'), ('A', 'Z'), ('_', '_'), ('a', 'z')]
  | "xdigit" => some [('0', '9'), ('A', 'F'), ('a', 'f')]
  | _ => Option.none

end CharSet

end AverageLinkage
