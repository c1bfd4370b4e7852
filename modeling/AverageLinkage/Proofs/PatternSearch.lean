import Mathlib
import AverageLinkage.Proofs.PatternMachine

/-!
# Searching for patterns

A search stands at every node that a walk leads to at the current place of the text, and
inside of every character that a walk is about to pass.  It stands at no others, so that a
match is reported only if the pattern fits a part of the text up to its end.  Such a part is
missed only for the sake of a match that ends before the end of the text.
-/

namespace AverageLinkage.Pattern

open Relation (ReflTransGen)

namespace Machine

variable {machine : Machine} {holds : Place → Bool} {nodes : List Nat} {found : List Position}

/-! ## Exploring -/

theorem mem_explore_of_mem {position : Position} (hfound : position ∈ found) :
    position ∈ machine.explore holds nodes found := by
  fun_induction explore machine holds nodes found with
  | case1 => exact hfound
  | case2 found node rest hseen ih => exact ih hfound
  | case3 found node rest hnew ih => exact ih (List.mem_cons_of_mem _ hfound)

theorem reached_mem_explore {node : Nat} (hnode : node ∈ nodes) :
    .reached node ∈ machine.explore holds nodes found := by
  fun_induction explore machine holds nodes found with
  | case1 => contradiction
  | case2 found first rest hseen ih =>
      rcases List.mem_cons.mp hnode with rfl | hrest
      · exact mem_explore_of_mem (List.contains_iff_mem.mp hseen)
      · exact ih hrest
  | case3 found first rest hnew ih =>
      rcases List.mem_cons.mp hnode with rfl | hrest
      · exact mem_explore_of_mem List.mem_cons_self
      · exact ih (List.mem_append_right _ hrest)

/-- Whatever follows on a node that was found was found too, or waits to be entered. -/
def Closed (machine : Machine) (holds : Place → Bool) (waiting : List Nat)
    (found : List Position) : Prop :=
  ∀ node, .reached node ∈ found → ∀ next ∈ machine.follows holds node,
    .reached next ∈ found ∨ next ∈ waiting

theorem Closed.mem {node next : Nat} (hclosed : Closed machine holds [] found)
    (hnode : .reached node ∈ found) (hnext : next ∈ machine.follows holds node) :
    .reached next ∈ found :=
  (hclosed node hnode next hnext).resolve_right List.not_mem_nil

theorem Closed.wait (hclosed : Closed machine holds [] found) (nodes : List Nat) :
    Closed machine holds nodes found :=
  fun _ hnode _ hnext => .inl (hclosed.mem hnode hnext)

/-- When nothing waits any longer, everything that follows was found. -/
theorem Closed.explore (hclosed : Closed machine holds nodes found) :
    Closed machine holds [] (machine.explore holds nodes found) := by
  fun_induction Machine.explore machine holds nodes found with
  | case1 => exact hclosed
  | case2 found first rest hseen ih =>
      apply ih
      intro node hnode next hnext
      rcases hclosed node hnode next hnext with hfound | hwaiting
      · exact .inl hfound
      · rcases List.mem_cons.mp hwaiting with rfl | hrest
        · exact .inl (List.contains_iff_mem.mp hseen)
        · exact .inr hrest
  | case3 found first rest hnew ih =>
      apply ih
      intro node hnode next hnext
      rcases List.mem_cons.mp hnode with heq | hfound
      · cases heq
        exact .inr (List.mem_append_left _ hnext)
      · rcases hclosed node hfound next hnext with hthere | hwaiting
        · exact .inl (List.mem_cons_of_mem _ hthere)
        · rcases List.mem_cons.mp hwaiting with rfl | hrest
          · exact .inl List.mem_cons_self
          · exact .inr (List.mem_append_right _ hrest)

/-- A property of nodes that what follows on them has as well. -/
def Inherited (machine : Machine) (holds : Place → Bool) (property : Position → Prop) : Prop :=
  ∀ node, property (.reached node) → ∀ next ∈ machine.follows holds node,
    property (.reached next)

/-- Whatever is inherited from the nodes at the start holds of all that is found. -/
theorem forall_mem_explore {property : Position → Prop}
    (hinherited : Inherited machine holds property)
    (hnodes : ∀ node ∈ nodes, property (.reached node))
    (hfound : ∀ position ∈ found, property position) :
    ∀ position ∈ machine.explore holds nodes found, property position := by
  fun_induction explore machine holds nodes found with
  | case1 => exact hfound
  | case2 found first rest hseen ih =>
      exact ih (fun node hnode => hnodes node (List.mem_cons_of_mem _ hnode)) hfound
  | case3 found first rest hnew ih =>
      have hfirst := hnodes first List.mem_cons_self
      apply ih
      · intro node hnode
        rcases List.mem_append.mp hnode with hfollows | hrest
        · exact hinherited first hfirst node hfollows
        · exact hnodes node (List.mem_cons_of_mem _ hrest)
      · intro position hposition
        rcases List.mem_cons.mp hposition with rfl | hrest
        · exact hfirst
        · exact hfound position hrest

/-! ## Entering positions -/

theorem mem_enter (machine : Machine) (holds : Place → Bool) (found : List Position)
    (position : Position) : position ∈ machine.enter holds found position := by
  cases position with
  | reached node => exact reached_mem_explore List.mem_cons_self
  | inside left node => exact List.mem_cons_self

theorem mem_enter_of_mem {position other : Position} (hfound : position ∈ found) :
    position ∈ machine.enter holds found other := by
  cases other with
  | reached node => exact mem_explore_of_mem hfound
  | inside left node => exact List.mem_cons_of_mem _ hfound

theorem Closed.enter (hclosed : Closed machine holds [] found) (position : Position) :
    Closed machine holds [] (machine.enter holds found position) := by
  cases position with
  | reached node => exact (hclosed.wait [node]).explore
  | inside left node =>
      intro other hother next hnext
      have hfound : Position.reached other ∈ found := by simpa [Machine.enter] using hother
      exact .inl (List.mem_cons_of_mem _ (hclosed.mem hfound hnext))

theorem forall_mem_enter {property : Position → Prop} {position : Position}
    (hinherited : Inherited machine holds property) (hposition : property position)
    (hfound : ∀ other ∈ found, property other) :
    ∀ other ∈ machine.enter holds found position, property other := by
  cases position with
  | reached node => exact forall_mem_explore hinherited (by simpa using hposition) hfound
  | inside left node => simpa [enter] using ⟨hposition, hfound⟩

section EnterAll

variable {moved : List Position}

theorem mem_foldl_enter {position : Position} (hposition : position ∈ moved ∨ position ∈ found) :
    position ∈ moved.foldl (machine.enter holds) found := by
  induction moved generalizing found with
  | nil => simpa using hposition
  | cons first rest ih =>
      apply ih
      rcases hposition with hmoved | hfound
      · rcases List.mem_cons.mp hmoved with rfl | hrest
        · exact .inr (mem_enter ..)
        · exact .inl hrest
      · exact .inr (mem_enter_of_mem hfound)

theorem Closed.foldl_enter (hclosed : Closed machine holds [] found) :
    Closed machine holds [] (moved.foldl (machine.enter holds) found) := by
  induction moved generalizing found with
  | nil => exact hclosed
  | cons first rest ih => exact ih (hclosed.enter first)

theorem forall_mem_foldl_enter {property : Position → Prop}
    (hinherited : Inherited machine holds property) (hmoved : ∀ position ∈ moved, property position)
    (hfound : ∀ position ∈ found, property position) :
    ∀ position ∈ moved.foldl (machine.enter holds) found, property position := by
  induction moved generalizing found with
  | nil => exact hfound
  | cons first rest ih =>
      obtain ⟨hfirst, hrest⟩ := List.forall_mem_cons.mp hmoved
      exact ih hrest (forall_mem_enter hinherited hfirst hfound)

end EnterAll

/-! ## What a search has found -/

/-- The spot that a position leads to. -/
def Position.spot (index : Nat) : Position → Spot
  | .reached node => ⟨index, node⟩
  | .inside left node => ⟨index + left + 1, node⟩

theorem Position.spot_before (index bytes node : Nat) :
    (Position.before bytes node).spot index = ⟨index + bytes, node⟩ := by
  cases bytes <;> rfl

section Search

variable {text : List TextByte} {start index : Nat} {byte : TextByte} {positions : List Position}

/-- A walk of some attempt leads to a spot. -/
def Reaches (machine : Machine) (text : List TextByte) (start : Nat) (spot : Spot) : Prop :=
  ∃ first, ReflTransGen (Step machine text) ⟨first, start⟩ spot

/-- Every position lies on a walk. -/
def Sound (machine : Machine) (text : List TextByte) (start index : Nat)
    (positions : List Position) : Prop :=
  ∀ position ∈ positions, Reaches machine text start (position.spot index)

/-- A walk to a node goes on to what follows on it. -/
theorem inherited_reaches :
    Inherited machine (holdsAt text index)
      fun position => Reaches machine text start (position.spot index) := by
  rintro node ⟨first, hwalk⟩ next hnext
  exact ⟨first, hwalk.tail (.idle hnext)⟩

/-- A byte leads from a walk to the same walk. -/
theorem reaches_of_move? {position moved : Position}
    (hbyte : text[index]? = some byte) (hmove : machine.move? byte position = some moved)
    (hreaches : Reaches machine text start (position.spot index)) :
    Reaches machine text start (moved.spot (index + 1)) := by
  cases position with
  | inside left node =>
      cases hmove
      rw [Position.spot_before]
      have hspot : (⟨index + 1 + left, node⟩ : Spot) = ⟨index + left + 1, node⟩ := by
        rw [Nat.add_right_comm]
      rw [hspot]
      exact hreaches
  | reached node =>
      rw [move?] at hmove
      split at hmove
      · next set next char hnode hchar =>
        split at hmove
        · next hset =>
          cases hmove
          obtain ⟨first, hwalk⟩ := hreaches
          have hsize := char.utf8Size_pos
          have htakes : Takes text set index (index + char.utf8Size) := by
            refine ⟨byte.value, char, ?_, hset, rfl⟩
            rw [hbyte, ← hchar]
          rw [Position.spot_before]
          refine ⟨first, ?_⟩
          have hspot : index + 1 + (char.utf8Size - 1) = index + char.utf8Size := by omega
          rw [hspot]
          exact hwalk.tail (.take hnode htakes)
        · contradiction
      · contradiction

/-- A byte leads from positions on walks to positions on walks. -/
theorem Sound.advance (hsound : Sound machine text start index positions)
    (hbyte : text[index]? = some byte) :
    Sound machine text start (index + 1)
      (machine.advance (holdsAt text (index + 1)) byte positions) := by
  apply forall_mem_foldl_enter inherited_reaches
  · intro moved hmoved
    obtain ⟨position, hposition, hmove⟩ := List.mem_filterMap.mp hmoved
    have hbefore := (List.takeWhile_sublist _).subset hposition
    exact reaches_of_move? hbyte hmove (hsound position hbefore)
  · intro position hposition
    contradiction

theorem Sound.explore_start (hsound : Sound machine text start index positions) :
    Sound machine text start index
      (machine.explore (holdsAt text index) [start] positions) := by
  apply forall_mem_explore inherited_reaches _ hsound
  intro node hnode
  rw [List.mem_singleton.mp hnode]
  exact ⟨index, .refl⟩

/-- Every walk of an attempt has a position: at a node where it stands, or inside of a
character that it is about to pass. -/
structure Full (machine : Machine) (text : List TextByte) (start index : Nat)
    (positions : List Position) : Prop where
  start_mem : .reached start ∈ positions
  closed : Closed machine (holdsAt text index) [] positions
  passing : ∀ place node next after set, place < index → index ≤ after →
    Reaches machine text start ⟨place, node⟩ → machine[node]? = some (.one set next) →
    Takes text set place after → .before (after - index) next ∈ positions

/-- A walk that stands at a node has the position of that node. -/
theorem Full.reached_mem {node : Nat} (hfull : Full machine text start index positions)
    (hreaches : Reaches machine text start ⟨index, node⟩) : .reached node ∈ positions := by
  obtain ⟨first, hwalk⟩ := hreaches
  generalize hspot : (⟨index, node⟩ : Spot) = spot at hwalk
  induction hwalk generalizing node with
  | refl =>
      cases hspot
      exact hfull.start_mem
  | @tail before spot hbefore hstep ih =>
      cases hstep with
      | @idle _ before _ hnext =>
          cases hspot
          exact hfull.closed.mem (ih rfl) hnext
      | @take place before _ _ set hnode htakes =>
          cases hspot
          have hmem := hfull.passing place before node index set htakes.lt (Nat.le_refl _)
            ⟨first, hbefore⟩ hnode htakes
          rwa [Nat.sub_self] at hmem

/-- As long as no position is the end of the pattern, a byte leads on from every position. -/
theorem mem_advance {position moved : Position} (hend : machine.isAccepted positions = false)
    (hposition : position ∈ positions) (hmove : machine.move? byte position = some moved) :
    moved ∈ machine.advance holds byte positions := by
  have hall : positions.takeWhile (fun position => !machine.isEnd position) = positions := by
    rw [List.takeWhile_eq_self_iff]
    intro other hother
    simpa using List.any_eq_false.mp hend other hother
  apply mem_foldl_enter
  rw [hall]
  exact .inl (List.mem_filterMap.mpr ⟨position, hposition, hmove⟩)

/-- As long as the end was not reached, no walk is lost by taking a byte and starting anew. -/
theorem Full.advance (hfull : Full machine text start index positions)
    (hbyte : text[index]? = some byte) (hend : machine.isAccepted positions = false) :
    Full machine text start (index + 1)
      (machine.explore (holdsAt text (index + 1)) [start]
        (machine.advance (holdsAt text (index + 1)) byte positions)) where
  start_mem := reached_mem_explore List.mem_cons_self
  closed := by
    have hclosed : Closed machine (holdsAt text (index + 1)) []
        (machine.advance (holdsAt text (index + 1)) byte positions) :=
      Closed.foldl_enter (by simp [Closed])
    exact (hclosed.wait [start]).explore
  passing := by
    intro place node next after set hplace hafter hreaches hnode htakes
    apply mem_explore_of_mem
    rcases Nat.lt_succ_iff_lt_or_eq.mp hplace with hearlier | rfl
    -- The character was entered before, and goes on or ends with this byte.
    · have hmem := hfull.passing place node next after set hearlier (by omega) hreaches hnode htakes
      have hleft : after - index = after - (index + 1) + 1 := by omega
      rw [hleft] at hmem
      exact mem_advance hend hmem rfl
    -- The character begins with this byte.
    · have hmem := hfull.reached_mem hreaches
      obtain ⟨value, char, hchar, hset, rfl⟩ := htakes
      cases hbyte.symm.trans hchar
      have hleft : place + char.utf8Size - (place + 1) = char.utf8Size - 1 := by omega
      rw [hleft]
      refine mem_advance hend hmem ?_
      simp [move?, hnode, hset]

theorem getElem?_of_drop_eq_cons {rest : List TextByte} (hrest : text.drop index = byte :: rest) :
    text[index]? = some byte ∧ text.drop (index + 1) = rest := by
  constructor
  · rw [← List.head?_drop, hrest, List.head?_cons]
  · rw [← List.tail_drop, hrest, List.tail_cons]

/-- The conditions after a byte are those before the byte that comes next. -/
theorem holds_eq_holdsAt {rest : List TextByte} (hrest : text.drop index = byte :: rest) :
    (fun condition => Place.holds condition (some byte.value) (rest.head?.map TextByte.value)) =
      holdsAt text (index + 1) := by
  obtain ⟨hbyte, hnext⟩ := getElem?_of_drop_eq_cons hrest
  funext condition
  rw [holdsAt, byteBefore?, hbyte, ← hnext, List.head?_drop]
  rfl

theorem Sound.reverse (hsound : Sound machine text start index positions) :
    Sound machine text start index positions.reverse :=
  fun position hposition => hsound position (List.mem_reverse.mp hposition)

theorem Full.reverse (hfull : Full machine text start index positions) :
    Full machine text start index positions.reverse where
  start_mem := List.mem_reverse.mpr hfull.start_mem
  closed := by simpa only [Closed, List.mem_reverse] using hfull.closed
  passing := by simpa only [List.mem_reverse] using hfull.passing

/-- If the end of the pattern is among the positions, a walk leads to it. -/
theorem Sound.exists_of_isAccepted (hsound : Sound machine text start index positions)
    (haccepted : machine.isAccepted positions = true) :
    ∃ node, machine[node]? = some .accept ∧ Reaches machine text start ⟨index, node⟩ := by
  obtain ⟨position, hposition, hend⟩ := List.any_eq_true.mp haccepted
  cases position with
  | reached node => exact ⟨node, by simpa [isEnd] using hend, hsound _ hposition⟩
  | inside left node => contradiction

/-- The end is among the positions if and only if a walk leads there. -/
theorem Full.isAccepted_iff (hfull : Full machine text start index positions)
    (hsound : Sound machine text start index positions) :
    machine.isAccepted positions = true ↔
      ∃ node, machine[node]? = some .accept ∧ Reaches machine text start ⟨index, node⟩ := by
  constructor
  · exact hsound.exists_of_isAccepted
  · rintro ⟨node, hend, hreaches⟩
    exact List.any_eq_true.mpr ⟨.reached node, hfull.reached_mem hreaches, by simp [isEnd, hend]⟩

/-- A search that ends at the end of the pattern has followed a walk to it. -/
theorem exists_reaches_of_searchFrom {rest : List TextByte} {seeking : Bool}
    (hrest : text.drop index = rest) (hindex : index ≤ text.length)
    (hsound : Sound machine text start index positions)
    (hsearch : machine.searchFrom start seeking positions rest = true) :
    ∃ node, machine[node]? = some .accept ∧
      Reaches machine text start ⟨text.length, node⟩ := by
  induction rest generalizing index positions seeking with
  | nil =>
      have hlength : index = text.length :=
        Nat.le_antisymm hindex (List.drop_eq_nil_iff.mp hrest)
      exact hlength ▸ hsound.exists_of_isAccepted hsearch
  | cons byte rest ih =>
      obtain ⟨hbyte, hnext⟩ := getElem?_of_drop_eq_cons hrest
      have hlt := (List.getElem?_eq_some_iff.mp hbyte).1
      have hadvance := hsound.advance hbyte
      simp only [searchFrom, holds_eq_holdsAt hrest] at hsearch
      refine ih hnext hlt ?_ hsearch
      split
      · exact hadvance.explore_start.reverse
      · exact hadvance.reverse

/-- As long as no walk leads to the end of the pattern before the end of the text, a search
gives up no position and finds every walk. -/
theorem searchFrom_iff {rest : List TextByte} (hrest : text.drop index = rest)
    (hindex : index ≤ text.length) (hsound : Sound machine text start index positions)
    (hfull : Full machine text start index positions)
    (hlate : ∀ place node, place < text.length → machine[node]? = some .accept →
      ¬Reaches machine text start ⟨place, node⟩) :
    machine.searchFrom start true positions rest = true ↔
      ∃ node, machine[node]? = some .accept ∧
        Reaches machine text start ⟨text.length, node⟩ := by
  induction rest generalizing index positions with
  | nil =>
      have hlength : index = text.length :=
        Nat.le_antisymm hindex (List.drop_eq_nil_iff.mp hrest)
      rw [searchFrom, hfull.isAccepted_iff hsound, hlength]
  | cons byte rest ih =>
      obtain ⟨hbyte, hnext⟩ := getElem?_of_drop_eq_cons hrest
      have hlt := (List.getElem?_eq_some_iff.mp hbyte).1
      have hend : machine.isAccepted positions = false := by
        rw [Bool.eq_false_iff, ne_eq, hfull.isAccepted_iff hsound]
        rintro ⟨node, haccept, hreaches⟩
        exact hlate index node hlt haccept hreaches
      simp only [searchFrom, holds_eq_holdsAt hrest, hend, Bool.not_false, Bool.and_self, if_true]
      exact ih hnext hlt (hsound.advance hbyte).explore_start.reverse
        (hfull.advance hbyte hend).reverse

end Search

section Start

variable (machine : Machine) (text : List TextByte) (start : Nat)

theorem sound_start :
    Sound machine text start 0 (machine.explore (holdsAt text 0) [start] []) := by
  apply Sound.explore_start
  intro position hposition
  contradiction

theorem full_start :
    Full machine text start 0 (machine.explore (holdsAt text 0) [start] []) where
  start_mem := reached_mem_explore List.mem_cons_self
  closed := Closed.explore (by simp [Closed])
  passing := by
    intro place node next after set hplace
    contradiction

end Start

/-- The end is reached at a place if and only if the pattern fits a part of the text that ends
there. -/
theorem exists_end_reaches_iff (pattern : Pattern) (text : List TextByte) (last : Nat) :
    (∃ node, (ofPattern pattern).1[node]? = some .accept ∧
        Reaches (ofPattern pattern).1 text (ofPattern pattern).2 ⟨last, node⟩) ↔
      ∃ first, Fits text pattern first last := by
  constructor
  · rintro ⟨node, hend, first, hwalk⟩
    rw [(getElem?_ofPattern_eq_accept_iff pattern node).mp hend] at hwalk
    exact ⟨first, (reaches_end_iff pattern text first last).mp hwalk⟩
  · rintro ⟨first, hfits⟩
    exact ⟨0, (getElem?_ofPattern_eq_accept_iff pattern 0).mpr rfl, first,
      (reaches_end_iff pattern text first last).mpr hfits⟩

end Machine

open Machine (bytesOfText)

theorem matchesEnd_eq_searchFrom (pattern : Pattern) (text : String) :
    pattern.matchesEnd text =
      (Machine.ofPattern pattern).1.searchFrom (Machine.ofPattern pattern).2 true
        ((Machine.ofPattern pattern).1.explore (Machine.holdsAt (bytesOfText text) 0)
          [(Machine.ofPattern pattern).2] []).reverse (bytesOfText text) := by
  have hholds : (fun condition => Place.holds condition none
      ((bytesOfText text).head?.map Machine.TextByte.value)) =
      Machine.holdsAt (bytesOfText text) 0 := by
    funext condition
    rw [Machine.holdsAt, List.head?_eq_getElem?]
    rfl
  rw [matchesEnd, ← hholds]

/-- A pattern matches a text only if it fits a part of the text that reaches to its end. -/
theorem exists_fits_of_matchesEnd {pattern : Pattern} {text : String}
    (hmatches : pattern.matchesEnd text = true) :
    ∃ first, Fits (bytesOfText text) pattern first (bytesOfText text).length := by
  rw [matchesEnd_eq_searchFrom] at hmatches
  exact (Machine.exists_end_reaches_iff pattern _ _).mp
    (Machine.exists_reaches_of_searchFrom rfl (Nat.zero_le _) (Machine.sound_start _ _ _).reverse
      hmatches)

/-- A part that reaches to the end of the text is found, unless the pattern fits a part that
ends earlier: the search may prefer that one. -/
theorem matchesEnd_iff {pattern : Pattern} {text : String}
    (hlate : ∀ first last, Fits (bytesOfText text) pattern first last →
      (bytesOfText text).length ≤ last) :
    pattern.matchesEnd text = true ↔
      ∃ first, Fits (bytesOfText text) pattern first (bytesOfText text).length := by
  rw [matchesEnd_eq_searchFrom, ← Machine.exists_end_reaches_iff]
  refine Machine.searchFrom_iff rfl (Nat.zero_le _) (Machine.sound_start _ _ _).reverse
    (Machine.full_start _ _ _).reverse ?_
  intro place node hplace hend hreaches
  obtain ⟨first, hfits⟩ := (Machine.exists_end_reaches_iff pattern _ _).mp ⟨node, hend, hreaches⟩
  have hle := hlate first place hfits
  omega

end AverageLinkage.Pattern
