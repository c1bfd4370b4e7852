import AverageLinkage.Pattern.Basic
import AverageLinkage.Text.Line

/-!
# Searching for a pattern

A machine is a graph of nodes that a search walks along with the text.  The
search keeps the places it can be at in the order of preference, and starts anew
at every byte with the least preference.  Once the end of the pattern is
reached, everything of less preference is given up.  So the search finds the
leftmost match, and among those the preferred one.
-/

namespace AverageLinkage.Pattern

inductive Node where
  /-- The end of the pattern. -/
  | accept
  | one (set : CharSet) (next : Nat)
  | place (condition : Place) (next : Nat)
  /-- Two ways to go on, the preferred one first. -/
  | fork (first second : Nat)
  deriving DecidableEq, Repr

abbrev Machine := Array Node

namespace Machine

def fork (greedy : Bool) (body next : Nat) : Node :=
  if greedy then .fork body next else .fork next body

/-- Add nodes for a pattern that goes on at `next`; the second result is where the
pattern begins.

A body that surely takes a character is repeated any number of times through a
single node, which stands before and after it.  A body that can be empty would
come back to that node without a step forward and lose its preference, so it has
one node before and one after it. -/
def add (machine : Machine) (next : Nat) : Pattern → Machine × Nat
  | .empty => (machine, next)
  | .one set _ => (machine.push (.one set next), machine.size)
  | .place condition => (machine.push (.place condition next), machine.size)
  | .sequence first second =>
      let (machine, middle) := machine.add next second
      machine.add middle first
  | .choice left right =>
      let (machine, start) := machine.add next left
      let (machine, other) := machine.add next right
      (machine.push (.fork start other), machine.size)
  | .optional greedy body =>
      let (machine, start) := machine.add next body
      (machine.push (fork greedy start next), machine.size)
  | .anyTimes greedy body =>
      let again := machine.size
      let (machine, start) := Machine.add (machine.push .accept) again body
      let machine := machine.setIfInBounds again (fork greedy start next)
      if body.isConsuming then (machine, again)
      else (machine.push (fork greedy start next), machine.size)
  | .repeated greedy body =>
      let again := machine.size
      let (machine, start) := Machine.add (machine.push .accept) again body
      (machine.setIfInBounds again (fork greedy start next), start)
  | .enclosed _ body => machine.add next body

/-- The machine of a pattern, and where it begins.  Node 0 is the end. -/
def ofPattern (pattern : Pattern) : Machine × Nat :=
  Machine.add #[.accept] 0 pattern

/-- Where a search can be: at a node, or inside of a character that takes another
byte and then some more before a node is reached. -/
inductive Position where
  | reached (node : Nat)
  | inside (left : Nat) (node : Nat)
  deriving DecidableEq, Repr

/-- The position from which a node is reached after a number of bytes. -/
def Position.before : (bytes : Nat) → (node : Nat) → Position
  | 0, node => .reached node
  | left + 1, node => .inside left node

/-- The nodes that follow on a node without a byte, the preferred one first. -/
def follows (machine : Machine) (holds : Place → Bool) (node : Nat) : List Nat :=
  match machine[node]? with
  | some (.fork first second) => [first, second]
  | some (.place condition next) => if holds condition then [next] else []
  | _ => []

theorem length_follows_le (machine : Machine) (holds : Place → Bool) (node : Nat) :
    (machine.follows holds node).length ≤ 2 := by
  unfold follows
  split
  · exact Nat.le_refl _
  · split <;> simp
  · exact Nat.zero_le _

theorem follows_eq_nil {machine : Machine} {node : Nat} (holds : Place → Bool)
    (hnode : machine.size ≤ node) : machine.follows holds node = [] := by
  simp [follows, Array.getElem?_eq_none hnode]

/-- The nodes that were not found yet. -/
def unseen (machine : Machine) (found : List Position) : List Nat :=
  (List.range machine.size).filter fun node => !found.contains (.reached node)

theorem unseen_cons (machine : Machine) (found : List Position) (node : Nat) :
    machine.unseen (.reached node :: found) = (machine.unseen found).filter (· != node) := by
  simp only [unseen, List.filter_filter, List.contains_cons, Bool.not_or]
  congr 1
  funext other
  simp [bne, BEq.beq]

/-- Every node is entered at most once, and leads to two others at most. -/
theorem explore_decreases {machine : Machine} (holds : Place → Bool) {found : List Position}
    {node : Nat} (rest : List Nat) (hnew : ¬found.contains (.reached node)) :
    (machine.follows holds node ++ rest).length +
        2 * (machine.unseen (.reached node :: found)).length <
      (node :: rest).length + 2 * (machine.unseen found).length := by
  rw [unseen_cons, List.length_append, List.length_cons]
  by_cases hnode : node < machine.size
  · have hunseen : node ∈ machine.unseen found := by
      simpa [unseen, hnode] using hnew
    have hfollows := machine.length_follows_le holds node
    have hfewer : ((machine.unseen found).filter (· != node)).length <
        (machine.unseen found).length :=
      List.length_filter_lt_length_iff_exists.mpr ⟨node, hunseen, by simp⟩
    omega
  · have hfewer := List.length_filter_le (· != node) (machine.unseen found)
    rw [follows_eq_nil holds (Nat.le_of_not_lt hnode), List.length_nil]
    omega

/-- Go on from nodes, in the order of preference, as far as no byte is needed.
The positions that were found stand in reverse order. -/
def explore (machine : Machine) (holds : Place → Bool) (nodes : List Nat)
    (found : List Position) : List Position :=
  match nodes with
  | [] => found
  | node :: rest =>
      if found.contains (.reached node) then machine.explore holds rest found
      else machine.explore holds (machine.follows holds node ++ rest) (.reached node :: found)
termination_by nodes.length + 2 * (machine.unseen found).length
decreasing_by
  · exact Nat.add_lt_add_right (Nat.lt_succ_self _) _
  · exact explore_decreases holds rest (by assumption)

/-- A byte of a text; the first byte of a character comes with the character. -/
structure TextByte where
  value : UInt8
  char? : Option Char
  deriving DecidableEq, Repr

def bytesOf (char : Char) : List TextByte :=
  match Text.encode (String.singleton char) with
  | [] => []
  | byte :: rest =>
      { value := byte, char? := some char } :: rest.map fun byte => { value := byte, char? := none }

def bytesOfText (text : String) : List TextByte :=
  text.toList.flatMap bytesOf

/-- Where a byte leads to from a position. -/
def move? (machine : Machine) (byte : TextByte) : Position → Option Position
  | .inside left node => some (.before left node)
  | .reached node =>
      match machine[node]?, byte.char? with
      | some (.one set next), some char =>
          if set.contains char then some (.before (char.utf8Size - 1) next) else none
      | _, _ => none

def isEnd (machine : Machine) : Position → Bool
  | .reached node => machine[node]? == some .accept
  | .inside .. => false

def isAccepted (machine : Machine) (positions : List Position) : Bool :=
  positions.any machine.isEnd

/-- Go on from a position as far as no byte is needed. -/
def enter (machine : Machine) (holds : Place → Bool) (found : List Position) :
    Position → List Position
  | .reached node => machine.explore holds [node] found
  | .inside left node => .inside left node :: found

/-- Take a byte at every position.  At the end of the pattern the less preferred
positions are given up. -/
def advance (machine : Machine) (holds : Place → Bool) (byte : TextByte)
    (positions : List Position) : List Position :=
  ((positions.takeWhile fun position => !machine.isEnd position).filterMap
    (machine.move? byte)).foldl (machine.enter holds) []

/-- Search the rest of a text.  A new attempt starts after each byte until the end
of the pattern has been reached once. -/
def searchFrom (machine : Machine) (start : Nat) (seeking : Bool) (positions : List Position) :
    List TextByte → Bool
  | [] => machine.isAccepted positions
  | byte :: rest =>
      let holds := fun condition =>
        Place.holds condition (some byte.value) (rest.head?.map TextByte.value)
      let seeking := seeking && !machine.isAccepted positions
      let moved := machine.advance holds byte positions
      let moved := if seeking then machine.explore holds [start] moved else moved
      machine.searchFrom start seeking moved.reverse rest

end Machine

/-- Whether the preferred leftmost match of a pattern ends where the text ends. -/
def matchesEnd (pattern : Pattern) (text : String) : Bool :=
  let (machine, start) := Machine.ofPattern pattern
  let bytes := Machine.bytesOfText text
  let holds := fun condition => Place.holds condition none (bytes.head?.map Machine.TextByte.value)
  machine.searchFrom start true (machine.explore holds [start] []).reverse bytes

end AverageLinkage.Pattern
