import AverageLinkage.Pattern.Machine
import Mathlib

/-!
# Machines of patterns

A pattern fits a text from one place to another.  The machine of a pattern has a walk along
the text between the same places, from where the pattern begins to the end of the pattern,
and no other walks to the end.

A machine grows while parts of a pattern are added.  A walk through the nodes of a part
comes out of them only where the pattern goes on, so a part is judged by its own nodes,
whatever else the machine has.
-/

namespace AverageLinkage.Pattern

open Machine (TextByte)

namespace Machine

def byteBefore? (text : List TextByte) : (index : Nat) → Option UInt8
  | 0 => none
  | index + 1 => text[index]?.map TextByte.value

def holdsAt (text : List TextByte) (index : Nat) (condition : Place) : Bool :=
  condition.holds (byteBefore? text index) (text[index]?.map TextByte.value)

end Machine

/-- A character of a set stands between two places of a text. -/
def Takes (text : List TextByte) (set : CharSet) (first last : Nat) : Prop :=
  ∃ value char, text[first]? = some { value, char? := some char } ∧
    set.contains char = true ∧ last = first + char.utf8Size

theorem Takes.lt {text : List TextByte} {set : CharSet} {first last : Nat}
    (htakes : Takes text set first last) : first < last := by
  obtain ⟨value, char, -, -, rfl⟩ := htakes
  have hsize := char.utf8Size_pos
  omega

/-- The part of a text between two places is one that a pattern describes. -/
def Fits (text : List TextByte) : Pattern → Nat → Nat → Prop
  | .empty => Eq
  | .one set _ => Takes text set
  | .place condition => fun first last =>
      first = last ∧ Machine.holdsAt text first condition = true
  | .sequence first second => Relation.Comp (Fits text first) (Fits text second)
  | .choice left right => fun first last => Fits text left first last ∨ Fits text right first last
  | .optional _ body => Relation.ReflGen (Fits text body)
  | .anyTimes _ body => Relation.ReflTransGen (Fits text body)
  | .repeated _ body => Relation.TransGen (Fits text body)
  | .enclosed _ body => Fits text body

namespace Machine

variable {machine larger : Machine} {text : List TextByte}

/-! ## Walks -/

/-- A node of a machine at a place of a text. -/
structure Spot where
  index : Nat
  node : Nat

/-- One step of a machine: on to a following node, or past a character of a set. -/
inductive Step (machine : Machine) (text : List TextByte) : Spot → Spot → Prop
  | idle {index node next : Nat} (hnext : next ∈ machine.follows (holdsAt text index) node) :
      Step machine text ⟨index, node⟩ ⟨index, next⟩
  | take {index node next after : Nat} {set : CharSet}
      (hnode : machine[node]? = some (.one set next)) (htakes : Takes text set index after) :
      Step machine text ⟨index, node⟩ ⟨after, next⟩

theorem not_step_accept {index node : Nat} {spot : Spot} (hnode : machine[node]? = some .accept) :
    ¬Step machine text ⟨index, node⟩ spot := by
  rintro (⟨hnext⟩ | ⟨hone, -⟩)
  · simp [follows, hnode] at hnext
  · simp [hnode] at hone

theorem step_one_iff {index node next : Nat} {set : CharSet} {spot : Spot}
    (hnode : machine[node]? = some (.one set next)) :
    Step machine text ⟨index, node⟩ spot ↔
      ∃ after, Takes text set index after ∧ spot = ⟨after, next⟩ := by
  constructor
  · rintro (⟨hnext⟩ | ⟨hone, htakes⟩)
    · simp [follows, hnode] at hnext
    · cases hnode.symm.trans hone
      exact ⟨_, htakes, rfl⟩
  · rintro ⟨after, htakes, rfl⟩
    exact .take hnode htakes

theorem step_place_iff {index node next : Nat} {condition : Place} {spot : Spot}
    (hnode : machine[node]? = some (.place condition next)) :
    Step machine text ⟨index, node⟩ spot ↔
      holdsAt text index condition = true ∧ spot = ⟨index, next⟩ := by
  constructor
  · rintro (⟨hnext⟩ | ⟨hone, -⟩)
    · rw [follows, hnode] at hnext
      simp_all
    · simp [hnode] at hone
  · rintro ⟨hholds, rfl⟩
    exact .idle (by simp [follows, hnode, hholds])

/-- Which way is preferred does not matter for where a fork can lead. -/
theorem step_fork_iff {index node body next : Nat} {greedy : Bool} {spot : Spot}
    (hnode : machine[node]? = some (fork greedy body next)) :
    Step machine text ⟨index, node⟩ spot ↔ spot = ⟨index, body⟩ ∨ spot = ⟨index, next⟩ := by
  have hfollows : ∀ other, other ∈ machine.follows (holdsAt text index) node ↔
      other = body ∨ other = next := by
    intro other
    cases greedy <;> simp [follows, hnode, fork, or_comm]
  constructor
  · rintro (⟨hnext⟩ | ⟨hone, -⟩)
    · simpa using (hfollows _).mp hnext
    · cases greedy <;> simp [hnode, fork] at hone
  · rintro (rfl | rfl)
    · exact .idle ((hfollows _).mpr (.inl rfl))
    · exact .idle ((hfollows _).mpr (.inr rfl))

inductive Walk (machine : Machine) (text : List TextByte) : Nat → Spot → Spot → Prop
  | stay (spot : Spot) : Walk machine text 0 spot spot
  | step {count : Nat} {first second last : Spot} (hstep : Step machine text first second)
      (hwalk : Walk machine text count second last) : Walk machine text (count + 1) first last

/-- The number of steps matters for induction only. -/
theorem exists_walk_iff {first last : Spot} :
    (∃ count, Walk machine text count first last) ↔
      Relation.ReflTransGen (Step machine text) first last := by
  constructor
  · rintro ⟨count, hwalk⟩
    induction hwalk with
    | stay => exact .refl
    | step hstep _ ih => exact .head hstep ih
  · intro hreach
    induction hreach using Relation.ReflTransGen.head_induction_on with
    | refl => exact ⟨0, .stay last⟩
    | head hstep _ ih =>
        obtain ⟨count, hwalk⟩ := ih
        exact ⟨count + 1, .step hstep hwalk⟩

/-- A walk away from a spot begins with a step. -/
theorem Walk.exists_step {count : Nat} {first last : Spot}
    (hwalk : Walk machine text count first last) (hne : first.node ≠ last.node) :
    ∃ second rest, rest < count ∧ Step machine text first second ∧
      Walk machine text rest second last := by
  cases hwalk with
  | stay => exact absurd rfl hne
  | step hstep hrest => exact ⟨_, _, Nat.lt_succ_self _, hstep, hrest⟩

/-! ## Added nodes -/

def Grows (machine larger : Machine) : Prop :=
  ∀ node, node < machine.size → larger[node]? = machine[node]?

theorem Grows.size_le (hgrows : Grows machine larger) : machine.size ≤ larger.size := by
  apply Nat.le_of_not_lt
  intro hlt
  have hlast := hgrows larger.size hlt
  rw [Array.getElem?_eq_none (Nat.le_refl _), Array.getElem?_eq_getElem hlt] at hlast
  contradiction

theorem Grows.refl (machine : Machine) : Grows machine machine :=
  fun _ _ => rfl

theorem Grows.trans {largest : Machine} (hfirst : Grows machine larger)
    (hsecond : Grows larger largest) : Grows machine largest := by
  intro node hnode
  have hsize := hfirst.size_le
  rw [hsecond node (by omega), hfirst node hnode]

theorem grows_push (machine : Machine) (node : Node) : Grows machine (machine.push node) := by
  intro other hother
  rw [Array.getElem?_push_lt hother, Array.getElem?_eq_getElem hother]

/-- The nodes of a body that is repeated, with the node after it that leads back to its
beginning, and where the body begins. -/
def loop (machine : Machine) (next : Nat) (greedy : Bool) (body : Pattern) : Machine × Nat :=
  let (inner, start) := Machine.add (machine.push .accept) machine.size body
  (inner.setIfInBounds machine.size (fork greedy start next), start)

theorem add_anyTimes (machine : Machine) (next : Nat) (greedy : Bool) (body : Pattern) :
    machine.add next (.anyTimes greedy body) =
      let (looped, start) := machine.loop next greedy body
      if body.isConsuming then (looped, machine.size)
      else (looped.push (fork greedy start next), looped.size) := rfl

theorem Grows.loop {next : Nat} {greedy : Bool} {body : Pattern}
    (hbody : Grows (machine.push .accept)
      (Machine.add (machine.push .accept) machine.size body).1) :
    Grows machine (machine.loop next greedy body).1 := by
  intro node hnode
  have hinner := (grows_push machine .accept).trans hbody
  simp only [Machine.loop]
  rw [Array.getElem?_setIfInBounds_ne (by omega), hinner node hnode]

/-- Adding a pattern changes no node that was there before. -/
theorem grows_add (machine : Machine) (next : Nat) (pattern : Pattern) :
    Grows machine (machine.add next pattern).1 := by
  induction pattern generalizing machine next with
  | empty => exact .refl machine
  | one set confined => exact grows_push _ _
  | place condition => exact grows_push _ _
  | sequence first second ihfirst ihsecond => exact (ihsecond machine next).trans (ihfirst _ _)
  | choice left right ihleft ihright =>
      exact ((ihleft machine next).trans (ihright _ next)).trans (grows_push _ _)
  | optional greedy body ih => exact (ih machine next).trans (grows_push _ _)
  | anyTimes greedy body ih =>
      rw [add_anyTimes]
      dsimp only
      split
      · exact (ih _ _).loop
      · exact (ih _ _).loop.trans (grows_push _ _)
  | repeated greedy body ih => exact (ih _ _).loop
  | enclosed start body ih => exact ih machine next

theorem size_lt_size_loop (machine : Machine) (next : Nat) (greedy : Bool) (body : Pattern) :
    machine.size < (machine.loop next greedy body).1.size := by
  have hinner := (grows_add (machine.push .accept) machine.size body).size_le
  simp only [loop, Array.size_setIfInBounds]
  rw [Array.size_push] at hinner
  omega

/-- A pattern begins inside of the machine. -/
theorem add_lt_size (machine : Machine) (next : Nat) (hnext : next < machine.size)
    (pattern : Pattern) : (machine.add next pattern).2 < (machine.add next pattern).1.size := by
  induction pattern generalizing machine next with
  | empty => exact hnext
  | one set confined => simp [add]
  | place condition => simp [add]
  | sequence first second ihfirst ihsecond => exact ihfirst _ _ (ihsecond machine next hnext)
  | choice left right ihleft ihright => simp [add]
  | optional greedy body ih => simp [add]
  | anyTimes greedy body ih =>
      rw [add_anyTimes]
      dsimp only
      split
      · exact size_lt_size_loop machine next greedy body
      · simp
  | repeated greedy body ih =>
      have hstart := ih (machine.push .accept) machine.size (by simp)
      simpa only [add, Array.size_setIfInBounds] using hstart
  | enclosed start body ih => exact ih machine next hnext

/-- From a node on, a machine has the nodes of another one. -/
def Covers (larger : Machine) (low : Nat) (machine : Machine) : Prop :=
  ∀ node, low ≤ node → node < machine.size → larger[node]? = machine[node]?

theorem Covers.of_grows {low : Nat} {built : Machine} (hcovers : Covers larger low built)
    (hgrows : Grows machine built) : Covers larger low machine := by
  intro node hlow hnode
  have hsize := hgrows.size_le
  rw [hcovers node hlow (by omega), hgrows node hnode]

theorem Covers.mono {low high : Nat} (hcovers : Covers larger low machine) (hle : low ≤ high) :
    Covers larger high machine :=
  fun node hhigh hnode => hcovers node (by omega) hnode

theorem Covers.getElem?_push {low : Nat} {node : Node}
    (hcovers : Covers larger low (machine.push node)) (hlow : low ≤ machine.size) :
    larger[machine.size]? = some node := by
  rw [hcovers machine.size hlow (by simp), Array.getElem?_push_size]

theorem Covers.of_push {low : Nat} {node : Node}
    (hcovers : Covers larger low (machine.push node)) : Covers larger low machine :=
  hcovers.of_grows (grows_push machine node)

theorem Covers.getElem?_loop {next : Nat} {greedy : Bool} {body : Pattern}
    (hcovers : Covers larger machine.size (machine.loop next greedy body).1) :
    larger[machine.size]? = some (fork greedy (machine.loop next greedy body).2 next) := by
  have hsize := size_lt_size_loop machine next greedy body
  rw [hcovers machine.size (Nat.le_refl _) hsize]
  simp only [loop, Array.size_setIfInBounds] at hsize ⊢
  rw [Array.getElem?_setIfInBounds_self_of_lt hsize]

theorem Covers.of_loop {next : Nat} {greedy : Bool} {body : Pattern}
    (hcovers : Covers larger machine.size (machine.loop next greedy body).1) :
    Covers larger (machine.push .accept).size
      (Machine.add (machine.push .accept) machine.size body).1 := by
  intro node hlow hnode
  rw [Array.size_push] at hlow
  rw [hcovers node (by omega) (by simpa [loop] using hnode)]
  simp only [loop]
  rw [Array.getElem?_setIfInBounds_ne (by omega)]

/-- No node from `low` on is the end. -/
def Endless (low : Nat) (machine : Machine) : Prop :=
  ∀ node, low ≤ node → machine[node]? ≠ some .accept

theorem endless_size (machine : Machine) : Endless machine.size machine := by
  intro node hnode
  simp [Array.getElem?_eq_none hnode]

theorem Endless.push {low : Nat} {last : Node} (hendless : Endless low machine)
    (hlast : last ≠ .accept) : Endless low (machine.push last) := by
  intro node hnode
  rw [Array.getElem?_push]
  split
  · simpa using hlast
  · exact hendless node hnode

theorem fork_ne_accept (greedy : Bool) (body next : Nat) : fork greedy body next ≠ .accept := by
  cases greedy <;> simp [fork]

/-- The end that stands in for the way back is replaced once the body is known. -/
theorem Endless.loop {low next : Nat} {greedy : Bool} {body : Pattern}
    (hendless : Endless low machine)
    (hbody : Endless (machine.push .accept).size
      (Machine.add (machine.push .accept) machine.size body).1) :
    Endless low (machine.loop next greedy body).1 := by
  intro node hnode
  rcases Nat.lt_trichotomy node machine.size with hlt | rfl | hgt
  · rw [(grows_add (machine.push .accept) machine.size body).loop node hlt]
    exact hendless node hnode
  · rw [Covers.getElem?_loop fun _ _ _ => rfl]
    simpa using fork_ne_accept greedy _ next
  · simp only [Machine.loop]
    rw [Array.getElem?_setIfInBounds_ne (by omega)]
    exact hbody node (by rw [Array.size_push]; exact hgt)

/-- No part of a pattern adds an end of its own. -/
theorem Endless.add {low : Nat} (hendless : Endless low machine) (next : Nat)
    (pattern : Pattern) : Endless low (machine.add next pattern).1 := by
  induction pattern generalizing machine next low with
  | empty => exact hendless
  | one set confined => exact hendless.push (by simp)
  | place condition => exact hendless.push (by simp)
  | sequence first second ihfirst ihsecond => exact ihfirst (ihsecond hendless next) _
  | choice left right ihleft ihright =>
      exact (ihright (ihleft hendless next) next).push (by simp)
  | optional greedy body ih => exact (ih hendless next).push (fork_ne_accept _ _ _)
  | anyTimes greedy body ih =>
      have hloop : Endless low (machine.loop next greedy body).1 :=
        hendless.loop (ih (endless_size _) _)
      rw [add_anyTimes]
      dsimp only
      split
      · exact hloop
      · exact hloop.push (fork_ne_accept _ _ _)
  | repeated greedy body ih => exact hendless.loop (ih (endless_size _) _)
  | enclosed start body ih => exact ih hendless next

/-! ## Walks through added nodes -/

/-- The nodes from `low` on lead over a text as a relation says: every walk that leaves them
does so at `next` and takes a related part of the text, and every related part is taken by
some walk. -/
structure Passage (larger : Machine) (text : List TextByte) (low next start : Nat)
    (relation : Nat → Nat → Prop) : Prop where
  leave : ∀ (count first : Nat) (spot : Spot), Walk larger text count ⟨first, start⟩ spot →
    spot.node < low →
    ∃ last rest, rest ≤ count ∧ relation first last ∧ Walk larger text rest ⟨last, next⟩ spot
  pass : ∀ first last, relation first last →
    Relation.ReflTransGen (Step larger text) ⟨first, start⟩ ⟨last, next⟩

section Passage

variable {low high next middle start node : Nat} {relation other : Nat → Nat → Prop}

theorem Passage.mono (hpassage : Passage larger text high next start relation)
    (hle : low ≤ high) : Passage larger text low next start relation where
  leave count first spot hwalk hspot := hpassage.leave count first spot hwalk (by omega)
  pass := hpassage.pass

theorem Passage.congr (hpassage : Passage larger text low next start relation)
    (hiff : ∀ first last, relation first last ↔ other first last) :
    Passage larger text low next start other := by
  have heq : relation = other := funext fun first => funext fun last => propext (hiff first last)
  exact heq ▸ hpassage

theorem Passage.eq (next : Nat) : Passage larger text low next next Eq where
  leave count first _ hwalk _ := ⟨first, count, Nat.le_refl _, rfl, hwalk⟩
  pass := by
    rintro first _ rfl
    exact .refl

/-- A node all of whose steps lead on to the next one. -/
theorem Passage.step (hlow : low ≤ node)
    (hsteps : ∀ first spot, Step larger text ⟨first, node⟩ spot ↔
      ∃ last, relation first last ∧ spot = ⟨last, next⟩) :
    Passage larger text low next node relation where
  leave := by
    intro count first spot hwalk hspot
    obtain ⟨second, rest, hrest, hstep, hon⟩ := hwalk.exists_step (by dsimp only; omega)
    obtain ⟨last, hrelation, rfl⟩ := (hsteps first second).mp hstep
    exact ⟨last, rest, Nat.le_of_lt hrest, hrelation, hon⟩
  pass first last hrelation := .single ((hsteps first _).mpr ⟨last, hrelation, rfl⟩)

/-- One pattern after the other. -/
theorem Passage.comp (hfirst : Passage larger text high middle start relation)
    (hsecond : Passage larger text low next middle other) (hle : low ≤ high) :
    Passage larger text low next start (Relation.Comp relation other) where
  leave := by
    intro count first spot hwalk hspot
    obtain ⟨between, rest, hrest, hrelation, hmiddle⟩ :=
      hfirst.leave count first spot hwalk (by omega)
    obtain ⟨last, less, hless, hother, hon⟩ := hsecond.leave rest between spot hmiddle hspot
    exact ⟨last, less, by omega, ⟨between, hrelation, hother⟩, hon⟩
  pass := by
    rintro first last ⟨between, hrelation, hother⟩
    exact (hfirst.pass first between hrelation).trans (hsecond.pass between last hother)

/-- A choice between two patterns. -/
theorem Passage.fork {body after : Nat} (greedy : Bool) (hlow : low ≤ node)
    (hnode : larger[node]? = some (fork greedy body after))
    (hbody : Passage larger text low next body relation)
    (hafter : Passage larger text low next after other) :
    Passage larger text low next node fun first last =>
      relation first last ∨ other first last where
  leave := by
    intro count first spot hwalk hspot
    obtain ⟨second, less, hless, hstep, hrest⟩ := hwalk.exists_step (by dsimp only; omega)
    rcases (step_fork_iff hnode).mp hstep with rfl | rfl
    · obtain ⟨last, rest, hle, hrelation, hon⟩ := hbody.leave less first spot hrest hspot
      exact ⟨last, rest, by omega, .inl hrelation, hon⟩
    · obtain ⟨last, rest, hle, hother, hon⟩ := hafter.leave less first spot hrest hspot
      exact ⟨last, rest, by omega, .inr hother, hon⟩
  pass := by
    rintro first last (hrelation | hother)
    · exact .head ((step_fork_iff hnode).mpr (.inl rfl)) (hbody.pass first last hrelation)
    · exact .head ((step_fork_iff hnode).mpr (.inr rfl)) (hafter.pass first last hother)

/-- A walk comes back any number of times to the node after a repeated body.  The induction
is on the number of steps, since each turn takes at least the step at that node. -/
theorem Passage.again {greedy : Bool}
    (hnode : larger[low]? = some (Machine.fork greedy start next))
    (hbody : Passage larger text (low + 1) low start relation) :
    Passage larger text low next low (Relation.ReflTransGen relation) where
  leave := by
    intro count
    induction count using Nat.strongRecOn with
    | ind count ih =>
        intro first spot hwalk hspot
        obtain ⟨second, less, hless, hstep, hrest⟩ := hwalk.exists_step (by dsimp only; omega)
        rcases (step_fork_iff hnode).mp hstep with rfl | rfl
        · obtain ⟨between, turn, hturn, hrelation, hback⟩ :=
            hbody.leave less first spot hrest (by omega)
          obtain ⟨last, rest, hle, hmore, hon⟩ := ih turn (by omega) between spot hback hspot
          exact ⟨last, rest, by omega, .head hrelation hmore, hon⟩
        · exact ⟨first, less, by omega, .refl, hrest⟩
  pass := by
    intro first last hmore
    induction hmore using Relation.ReflTransGen.head_induction_on with
    | refl => exact .single ((step_fork_iff hnode).mpr (.inr rfl))
    | head hrelation _ ih =>
        exact .head ((step_fork_iff hnode).mpr (.inl rfl)) ((hbody.pass _ _ hrelation).trans ih)

end Passage

/-- The repetition of a body, from the node after it and from its beginning. -/
theorem passage_loop {next : Nat} {greedy : Bool} {body : Pattern}
    (hcovers : Covers larger machine.size (machine.loop next greedy body).1)
    (hbody : Passage larger text (machine.push .accept).size machine.size
      (machine.loop next greedy body).2 (Fits text body)) :
    Passage larger text machine.size next machine.size
        (Relation.ReflTransGen (Fits text body)) ∧
      Passage larger text machine.size next (machine.loop next greedy body).2
        (Relation.TransGen (Fits text body)) := by
  rw [Array.size_push] at hbody
  have hagain := Passage.again hcovers.getElem?_loop hbody
  refine ⟨hagain, (hbody.comp hagain (Nat.le_succ _)).congr ?_⟩
  intro first last
  exact Relation.TransGen.head'_iff.symm

/-- The nodes that are added for a pattern lead over exactly the parts of a text that the
pattern describes. -/
theorem passage_add (pattern : Pattern) (machine : Machine) (next : Nat)
    (hnext : next < machine.size)
    (hcovers : Covers larger machine.size (machine.add next pattern).1) :
    Passage larger text machine.size next (machine.add next pattern).2 (Fits text pattern) := by
  induction pattern generalizing machine next with
  | empty => exact .eq next
  | one set confined =>
      exact .step (Nat.le_refl _) fun _ _ =>
        step_one_iff (hcovers.getElem?_push (Nat.le_refl _))
  | place condition =>
      refine .step (Nat.le_refl _) fun first spot => ?_
      refine (step_place_iff (hcovers.getElem?_push (Nat.le_refl _))).trans ?_
      constructor
      · rintro ⟨hholds, rfl⟩
        exact ⟨first, ⟨rfl, hholds⟩, rfl⟩
      · rintro ⟨last, ⟨rfl, hholds⟩, rfl⟩
        exact ⟨hholds, rfl⟩
  | sequence first second ihfirst ihsecond =>
      have hsize := (grows_add machine next second).size_le
      have hmiddle := add_lt_size machine next hnext second
      have hsecond := ihsecond machine next hnext (hcovers.of_grows (grows_add _ _ first))
      have hfirst := ihfirst _ _ hmiddle (hcovers.mono hsize)
      exact hfirst.comp hsecond hsize
  | choice left right ihleft ihright =>
      have hsize := (grows_add machine next left).size_le
      have hmore := grows_add (machine.add next left).1 next right
      have hlow := Nat.le_trans hsize hmore.size_le
      have hleft := ihleft machine next hnext (hcovers.of_push.of_grows hmore)
      have hright := ihright _ next (by omega) (hcovers.of_push.mono hsize)
      exact .fork true hlow (hcovers.getElem?_push hlow) hleft (hright.mono hsize)
  | optional greedy body ih =>
      have hsize := (grows_add machine next body).size_le
      have hbody := ih machine next hnext hcovers.of_push
      refine (hbody.fork greedy hsize (hcovers.getElem?_push hsize) (.eq next)).congr ?_
      intro first last
      rw [Fits, Relation.reflGen_iff, or_comm, eq_comm]
  | anyTimes greedy body ih =>
      rw [add_anyTimes] at hcovers ⊢
      dsimp only at hcovers ⊢
      split at hcovers
      · next hconsuming =>
        rw [if_pos hconsuming]
        exact (passage_loop hcovers (ih _ _ (by simp) hcovers.of_loop)).1
      · next hconsuming =>
        rw [if_neg hconsuming]
        have hlow := Nat.le_of_lt (size_lt_size_loop machine next greedy body)
        have hbody := (passage_loop hcovers.of_push (ih _ _ (by simp) hcovers.of_push.of_loop)).2
        refine (hbody.fork greedy hlow (hcovers.getElem?_push hlow) (.eq next)).congr ?_
        intro first last
        rw [Fits, Relation.reflTransGen_iff_eq_or_transGen, or_comm, eq_comm]
  | repeated greedy body ih =>
      exact (passage_loop hcovers (ih _ _ (by simp) hcovers.of_loop)).2
  | enclosed start body ih => exact ih machine next hnext hcovers

/-- The machine of a pattern has one end. -/
theorem getElem?_ofPattern_eq_accept_iff (pattern : Pattern) (node : Nat) :
    (ofPattern pattern).1[node]? = some .accept ↔ node = 0 := by
  have hend : (ofPattern pattern).1[0]? = some .accept :=
    grows_add #[.accept] 0 pattern 0 (by simp)
  have hendless : Endless 1 (ofPattern pattern).1 :=
    (endless_size #[.accept]).add 0 pattern
  constructor
  · intro haccept
    by_contra hne
    exact hendless node (Nat.pos_of_ne_zero hne) haccept
  · rintro rfl
    exact hend

/-- The machine of a pattern walks from the beginning of the pattern to its end over exactly
the parts of a text that the pattern describes. -/
theorem reaches_end_iff (pattern : Pattern) (text : List TextByte) (first last : Nat) :
    Relation.ReflTransGen (Step (ofPattern pattern).1 text)
        ⟨first, (ofPattern pattern).2⟩ ⟨last, 0⟩ ↔
      Fits text pattern first last := by
  have hpassage : Passage (ofPattern pattern).1 text 1 0 (ofPattern pattern).2
      (Fits text pattern) :=
    passage_add pattern #[.accept] 0 (by simp) fun _ _ _ => rfl
  have hend := (getElem?_ofPattern_eq_accept_iff pattern 0).mpr rfl
  constructor
  · intro hreaches
    obtain ⟨count, hwalk⟩ := exists_walk_iff.mpr hreaches
    obtain ⟨other, rest, -, hfits, hrest⟩ := hpassage.leave count first _ hwalk (by simp)
    cases hrest with
    | stay => exact hfits
    | step hstep _ => exact absurd hstep (not_step_accept hend)
  · exact hpassage.pass first last

end Machine

end AverageLinkage.Pattern
