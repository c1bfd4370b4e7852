import Mathlib
import AverageLinkage.Proofs.CheckedAccess

/-!
# Sequences of calls on disjoint sets

A program that holds disjoint sets finds and unites elements in any order.  After
every such sequence the sets represent the pairs united so far: a find shortens links
and changes nothing that a later call could tell, and a union adds its pair.

Both loops of a find are given by a bound on the links they read.  They end if every
bound above some number of links gives the same result.
-/

namespace AverageLinkage.DisjointSets

/-! ## The loops of a find -/

/-- The loop follows at most `links` links, then it ends with `result`.  It is given as
a function of a bound on the links that it reads, the one of the root included. -/
def EndsWithin {α : Type} (loop : Nat → Option α) (links : Nat) (result : α) : Prop :=
  ∀ steps, links < steps → loop steps = some result

theorem EndsWithin.mono {α : Type} {loop : Nat → Option α} {links more : Nat} {result : α}
    (hends : EndsWithin loop links result) (hle : links ≤ more) : EndsWithin loop more result :=
  fun steps hsteps => hends steps (by omega)

/-- Any two bounds that let the chain end shorten the same links. -/
theorem compress_eq_of_climb? {root element : Nat} {parent : Array Nat} {steps more : Nat}
    (hsteps : climb? parent steps element = some root)
    (hmore : climb? parent more element = some root) :
    compress root steps element parent = compress root more element parent := by
  induction steps generalizing more element parent with
  | zero => simp [climb?] at hsteps
  | succ steps ih =>
      cases more with
      | zero => simp [climb?] at hmore
      | succ more =>
          have hlt := lt_size_of_climb? hsteps
          rw [climb?_succ hlt] at hsteps hmore
          rw [compress, compress]
          split
          · rfl
          · next hlink =>
              rw [if_neg hlink] at hsteps hmore
              exact ih (climb?_shortcut hlink hsteps) (climb?_shortcut hlink hmore)

/-- Both loops of a find follow no more links than lead from the element to its root. -/
theorem Sound.endsWithin {sets : DisjointSets} (hsound : sets.Sound) {element links : Nat}
    (helement : element < sets.parent.size)
    (hlinks : (parentOf sets.parent)^[links] element = sets.root element) :
    EndsWithin (fun steps => climb? sets.parent steps element) links (sets.root element) ∧
      EndsWithin (fun steps => compress? (sets.root element) steps element sets.parent) links
        (sets.find element).2.parent := by
  have hclimb : EndsWithin (fun steps => climb? sets.parent steps element) links
      (sets.root element) :=
    fun _ hsteps => hsound.climb?_of_iterate helement hlinks hsteps
  refine ⟨hclimb, fun steps hsteps => ?_⟩
  dsimp only
  rw [compress?_eq (hclimb steps hsteps), DisjointSets.find,
    compress_eq_of_climb? (hclimb steps hsteps) (hsound.climb?_eq_root helement)]

/-! ## Roots and classes as a caller sees them -/

def rootOf? (sets : DisjointSets) (element : Nat) : Option Nat :=
  (sets.find? element).map Prod.fst

def classOf (sets : DisjointSets) (element : Nat) : Finset Nat :=
  (Finset.range sets.parent.size).filter fun other => sets.rootOf? other = sets.rootOf? element

theorem Sound.rootOf?_eq {sets : DisjointSets} (hsound : sets.Sound) {element : Nat}
    (helement : element < sets.parent.size) : sets.rootOf? element = some (sets.root element) := by
  rw [rootOf?, hsound.find?_eq helement, Option.map_some, fst_find]

theorem rootOf?_of_size_le {sets : DisjointSets} {element : Nat}
    (helement : sets.parent.size ≤ element) : sets.rootOf? element = none := by
  rw [rootOf?, find?_of_size_le helement, Option.map_none]

theorem Sound.rootOf?_find {sets : DisjointSets} (hsound : sets.Sound) (element other : Nat) :
    (sets.find element).2.rootOf? other = sets.rootOf? other := by
  rcases Nat.lt_or_ge other sets.parent.size with hlt | hge
  · rw [(hsound.find element).rootOf?_eq (by rwa [size_parent_find]), hsound.rootOf?_eq hlt,
      hsound.root_find]
  · rw [rootOf?_of_size_le (by rwa [size_parent_find]), rootOf?_of_size_le hge]

theorem Sound.classOf_find {sets : DisjointSets} (hsound : sets.Sound) (element other : Nat) :
    (sets.find element).2.classOf other = sets.classOf other := by
  simp only [classOf, hsound.rootOf?_find, size_parent_find]

/-! ## Calls -/

/-- What a holder of disjoint sets can ask for. -/
inductive Call where
  | find (element : Nat)
  | union (left right : Nat)
  deriving DecidableEq, Repr

namespace Call

def InRange (size : Nat) : Call → Prop
  | find element => element < size
  | union left right => left < size ∧ right < size

instance (size : Nat) : DecidablePred (InRange size)
  | find element => inferInstanceAs (Decidable (element < size))
  | union left right => inferInstanceAs (Decidable (left < size ∧ right < size))

def run? (sets : DisjointSets) : Call → Option DisjointSets
  | find element => (sets.find? element).map Prod.snd
  | union left right => sets.union? left right

def run (sets : DisjointSets) : Call → DisjointSets
  | find element => (sets.find element).2
  | union left right => sets.union left right

@[simp]
theorem size_parent_run (sets : DisjointSets) (call : Call) :
    (call.run sets).parent.size = sets.parent.size := by
  cases call <;> simp [run]

@[simp]
theorem size_rank_run (sets : DisjointSets) (call : Call) :
    (call.run sets).rank.size = sets.rank.size := by
  cases call <;> simp [run]

end Call

theorem Sound.run?_eq {sets : DisjointSets} (hsound : sets.Sound)
    (hsize : sets.rank.size = sets.parent.size) {call : Call}
    (hcall : call.InRange sets.parent.size) : call.run? sets = some (call.run sets) := by
  cases call with
  | find element => rw [Call.run?, hsound.find?_eq hcall, Option.map_some, Call.run]
  | union left right => exact hsound.union?_eq hsize hcall.1 hcall.2

/-- The sets after a sequence of calls that starts with every element on its own. -/
def afterCalls? (size : Nat) (calls : List Call) : Option DisjointSets :=
  calls.foldlM Call.run? (singletons size)

/-- What holds at first and is kept by every call with arguments in range holds after
every sequence of such calls, and none of them fails. -/
theorem exists_afterCalls? {size : Nat} {motive : List Call → DisjointSets → Prop}
    (hsound : ∀ calls sets, motive calls sets → sets.Sound)
    (hstart : motive [] (singletons size))
    (hstep : ∀ calls sets call, sets.parent.size = size → call.InRange size →
      motive calls sets → motive (calls ++ [call]) (call.run sets))
    (calls : List Call) (hcalls : ∀ call ∈ calls, call.InRange size) :
    ∃ sets, afterCalls? size calls = some sets ∧ sets.parent.size = size ∧
      sets.rank.size = size ∧ motive calls sets := by
  -- from the end, since the last call works on the sets that all others have left
  induction calls using List.reverseRecOn with
  | nil => exact ⟨singletons size, rfl, by simp, by simp, hstart⟩
  | append_singleton calls call ih =>
      obtain ⟨sets, hsets, hparent, hrank, hmotive⟩ :=
        ih fun other hother => hcalls other (List.mem_append_left [call] hother)
      have hcall : call.InRange size := hcalls call (by simp)
      have hrun : call.run? sets = some (call.run sets) :=
        (hsound calls sets hmotive).run?_eq (hrank.trans hparent.symm) (by rwa [hparent])
      refine ⟨call.run sets, ?_, by simpa, by simpa, hstep calls sets call hparent hcall hmotive⟩
      rw [afterCalls?] at hsets ⊢
      rw [List.foldlM_append, hsets]
      simpa using hrun

/-! ## The pairs united so far -/

/-- A call has united the two elements. -/
def United (calls : List Call) (left right : Nat) : Prop :=
  Call.union left right ∈ calls

theorem Represents.find {sets : DisjointSets} {related : Nat → Nat → Prop}
    (hrep : sets.Represents related) (element : Nat) :
    (sets.find element).2.Represents related := by
  refine ⟨hrep.sound.find element, ?_, ?_⟩
  · intro other
    rw [hrep.sound.root_find]
    exact hrep.eqv_root other
  · intro left right hrelated
    rw [hrep.sound.root_find, hrep.sound.root_find]
    exact hrep.root_eq left right hrelated

theorem Represents.run {sets : DisjointSets} {calls : List Call}
    (hrep : sets.Represents (United calls)) {call : Call}
    (hcall : call.InRange sets.parent.size) :
    (call.run sets).Represents (United (calls ++ [call])) := by
  cases call with
  | find element =>
      have hsame : United (calls ++ [.find element]) = United calls := by
        ext left right
        simp [United]
      rw [hsame]
      exact hrep.find element
  | union left right =>
      have hadded : United (calls ++ [.union left right]) =
          fun first second => United calls first second ∨ first = left ∧ second = right := by
        ext first second
        simp [United]
      rw [hadded]
      exact hrep.union hcall.1 hcall.2

theorem Represents.start (size : Nat) : (DisjointSets.singletons size).Represents (United []) := by
  have hnone : United [] = fun _ _ => False := by
    ext left right
    simp [United]
  rw [hnone]
  exact Represents.singletons size

/-- After every sequence of calls, both loops of a find end, the find returns a root and
changes no root, no class and no rank, and two elements have the same root exactly if
the pairs united so far relate them. -/
theorem afterCalls?_partition (size : Nat) (calls : List Call)
    (hcalls : ∀ call ∈ calls, call.InRange size) :
    ∃ sets, afterCalls? size calls = some sets ∧
      sets.parent.size = size ∧ sets.rank.size = size ∧
      (∀ element < size, ∃ root shorter, sets.find? element = some (root, shorter) ∧
        (∃ links < size,
          EndsWithin (fun steps => climb? sets.parent steps element) links root ∧
          EndsWithin (fun steps => compress? root steps element sets.parent) links
            shorter.parent) ∧
        root < size ∧ sets.parent[root]? = some root ∧ shorter.parent[root]? = some root ∧
        shorter.rank = sets.rank ∧
        ∀ other, shorter.rootOf? other = sets.rootOf? other ∧
          shorter.classOf other = sets.classOf other) ∧
      ∀ left < size, ∀ right < size,
        sets.rootOf? left = sets.rootOf? right ↔ Relation.EqvGen (United calls) left right := by
  obtain ⟨sets, hsets, hparent, hrank, hrep⟩ :=
    exists_afterCalls? (motive := fun calls sets => sets.Represents (United calls))
      (fun _ _ hrep => hrep.sound) (Represents.start size)
      (fun _ _ _ hsize hcall hrep => hrep.run (by rwa [hsize])) calls hcalls
  have hsound := hrep.sound
  refine ⟨sets, hsets, hparent, hrank, ?_, ?_⟩
  · intro element helement
    rw [← hparent] at helement
    have hroot := hsound.root_lt helement
    have hfixed : parentOf (sets.find element).2.parent (sets.root element) =
        sets.root element := by
      have := (hsound.find element).parentOf_root element
      rwa [hsound.root_find] at this
    obtain ⟨links, hlinks, hends⟩ := hsound.exists_lt_iterate helement
    refine ⟨sets.root element, (sets.find element).2, hsound.find?_eq helement,
      ⟨links, by rwa [← hparent], hsound.endsWithin helement hends⟩, by rwa [← hparent], ?_, ?_,
      rank_find sets element,
      fun other => ⟨hsound.rootOf?_find element other, hsound.classOf_find element other⟩⟩
    · rw [getElem?_parent hroot, hsound.parentOf_root]
    · rw [getElem?_parent (by rwa [size_parent_find]), hfixed]
  · intro left hleft right hright
    rw [← hparent] at hleft hright
    rw [hsound.rootOf?_eq hleft, hsound.rootOf?_eq hright, Option.some.injEq, hrep.root_eq_iff]

/-- Three unions of five elements, which leave a chain of two links. -/
def chained : List Call :=
  [.union 0 1, .union 3 4, .union 1 4]

/-- A find at the lower end of the chain moves it below the root, where 1 and 3 are but
not 2. -/
theorem afterCalls?_partition_chained :
    (∀ call ∈ chained, call.InRange 5) ∧
    ∃ sets, afterCalls? 5 chained = some sets ∧ sets.parent = #[0, 0, 2, 0, 3] ∧
      (∃ shorter, sets.find? 4 = some (0, shorter) ∧ shorter.parent = #[0, 0, 2, 0, 0] ∧
        (∃ links < 5,
          EndsWithin (fun steps => climb? sets.parent steps 4) links 0 ∧
          EndsWithin (fun steps => compress? 0 steps 4 sets.parent) links shorter.parent) ∧
        shorter.rank = sets.rank ∧
        ∀ other, shorter.rootOf? other = sets.rootOf? other ∧
          shorter.classOf other = sets.classOf other) ∧
      Relation.EqvGen (United chained) 1 3 ∧ ¬Relation.EqvGen (United chained) 1 2 := by
  have hcalls : ∀ call ∈ chained, call.InRange 5 := by decide
  obtain ⟨sets, hsets, -, -, hfinds, hrelated⟩ := afterCalls?_partition 5 chained hcalls
  have hvalue : afterCalls? 5 chained = some ⟨#[0, 0, 2, 0, 3], #[2, 0, 0, 1, 0]⟩ := by decide
  obtain rfl := Option.some.inj (hsets.symm.trans hvalue)
  obtain ⟨root, shorter, hfind, hends, -, -, -, hrank, hkept⟩ := hfinds 4 (by decide)
  have hfound : find? ⟨#[0, 0, 2, 0, 3], #[2, 0, 0, 1, 0]⟩ 4 =
      some (0, ⟨#[0, 0, 2, 0, 0], #[2, 0, 0, 1, 0]⟩) := by decide
  obtain ⟨rfl, rfl⟩ := Prod.mk.inj (Option.some.inj (hfind.symm.trans hfound))
  exact ⟨hcalls, _, hsets, rfl, ⟨_, hfind, rfl, hends, hrank, hkept⟩,
    (hrelated 1 (by decide) 3 (by decide)).mp (by decide),
    mt (hrelated 1 (by decide) 2 (by decide)).mpr (by decide)⟩

end AverageLinkage.DisjointSets
