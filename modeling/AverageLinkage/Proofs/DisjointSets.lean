import Mathlib
import AverageLinkage.DisjointSets

/-!
# The partition kept by disjoint sets

Parent links are acyclic, so every element has a root, and climbing as many
steps as there are elements reaches it.  Finding an element changes no root.
Uniting two elements moves the roots of one class to the root of the other one.
Hence two elements have the same root exactly if the pairs united so far relate
them.
-/

namespace AverageLinkage.DisjointSets

/-! ## Chains of links -/

/-- Following links from `element` ends at `root`. -/
inductive Climbs (parent : Array Nat) : Nat → Nat → Prop
  | root {element : Nat} (hroot : parentOf parent element = element) :
      Climbs parent element element
  | step {element root : Nat} (hlink : parentOf parent element ≠ element)
      (hclimbs : Climbs parent (parentOf parent element) root) : Climbs parent element root

theorem Climbs.parentOf_root {parent : Array Nat} {element root : Nat}
    (hclimbs : Climbs parent element root) : parentOf parent root = root := by
  induction hclimbs with
  | root hroot => exact hroot
  | step _ _ ih => exact ih

/-- A chain of links has one end only. -/
theorem Climbs.unique {parent : Array Nat} {element left right : Nat}
    (hleft : Climbs parent element left) (hright : Climbs parent element right) :
    left = right := by
  induction hleft with
  | root hroot =>
      cases hright with
      | root _ => rfl
      | step hlink _ => exact absurd hroot hlink
  | step hlink _ ih =>
      cases hright with
      | root hroot => exact absurd hroot hlink
      | step _ hclimbs => exact ih hclimbs

theorem Climbs.of_link {parent : Array Nat} {element root : Nat}
    (hclimbs : Climbs parent element root) (hlink : parentOf parent element ≠ element) :
    Climbs parent (parentOf parent element) root := by
  cases hclimbs with
  | root hroot => exact absurd hroot hlink
  | step _ hrest => exact hrest

/-- A climb that has met a root stays there, so it is a plain iteration. -/
theorem climb_eq_iterate (parent : Array Nat) (steps element : Nat) :
    climb parent steps element = (parentOf parent)^[steps] element := by
  induction steps generalizing element with
  | zero => rfl
  | succ steps ih =>
      rw [climb]
      split
      · next hroot => rw [Function.iterate_fixed hroot]
      · rw [ih, Function.iterate_succ_apply]

theorem Climbs.exists_iterate {parent : Array Nat} {element root : Nat}
    (hclimbs : Climbs parent element root) :
    ∃ steps, (parentOf parent)^[steps] element = root := by
  induction hclimbs with
  | root _ => exact ⟨0, rfl⟩
  | step _ _ ih =>
      obtain ⟨steps, hsteps⟩ := ih
      exact ⟨steps + 1, hsteps⟩

/-- A chain below `size` that ends at all ends after fewer than `size` links, since up
to its end no element repeats. -/
theorem exists_lt_fixed {next : Nat → Nat} {size element : Nat}
    (hnext : ∀ other < size, next other < size) (helement : element < size)
    (hends : ∃ steps, next (next^[steps] element) = next^[steps] element) :
    ∃ steps < size, next (next^[steps] element) = next^[steps] element := by
  classical
  have hfixed := Nat.find_spec hends
  set first := Nat.find hends with hfirst
  have hbelow : ∀ steps, next^[steps] element < size := by
    intro steps
    induction steps with
    | zero => exact helement
    | succ steps ih =>
        rw [Function.iterate_succ_apply']
        exact hnext _ ih
  refine ⟨first, ?_, hfixed⟩
  by_contra hlong
  -- as many links as elements: two positions of the chain hold the same element
  obtain ⟨early, hearly, late, hlate, hne, hsame⟩ :=
    Finset.exists_ne_map_eq_of_card_lt_of_maps_to (s := Finset.range (size + 1))
      (t := Finset.range size) (by simp)
      (f := fun steps => next^[steps] element)
      (fun steps _ => by simpa using hbelow steps)
  wlog horder : early < late generalizing early late
  · exact this late hlate early hearly hne.symm hsame.symm (by omega)
  have hrepeat : next^[first - late + early] element = next^[first] element := by
    have hsplit : first = first - late + late := by
      have := Finset.mem_range.mp hlate
      omega
    rw [Function.iterate_add_apply, hsame, ← Function.iterate_add_apply, ← hsplit]
  have hsooner : next (next^[first - late + early] element) =
      next^[first - late + early] element := by
    rw [hrepeat]
    exact hfixed
  have hmin : first ≤ first - late + early := Nat.find_min' hends hsooner
  have := Finset.mem_range.mp hlate
  omega

/-- A chain that ends at all ends after as many links as there are elements.  Otherwise an element
would come twice on it. -/
theorem iterate_size_fixed {next : Nat → Nat} {size element : Nat}
    (hnext : ∀ other < size, next other < size) (helement : element < size)
    (hends : ∃ steps, next (next^[steps] element) = next^[steps] element) :
    next (next^[size] element) = next^[size] element := by
  obtain ⟨steps, hsteps, hfixed⟩ := exists_lt_fixed hnext helement hends
  have hsplit : size = size - steps + steps := by omega
  rw [hsplit, Function.iterate_add_apply, Function.iterate_fixed hfixed]
  exact hfixed

/-! ## Well-formed sets -/

/-- Links stay in range and every chain of them ends. -/
structure Sound (sets : DisjointSets) : Prop where
  parent_lt : ∀ element < sets.parent.size, parentOf sets.parent element < sets.parent.size
  climbs : ∀ element, ∃ root, Climbs sets.parent element root

theorem parentOf_of_size_le {parent : Array Nat} {element : Nat}
    (helement : parent.size ≤ element) : parentOf parent element = element := by
  simp [parentOf, helement]

/-- In sound sets the bound on the links is never reached before the root. -/
theorem Sound.climbs_root {sets : DisjointSets} (hsound : sets.Sound) (element : Nat) :
    Climbs sets.parent element (sets.root element) := by
  obtain ⟨top, htop⟩ := hsound.climbs element
  suffices hroot : sets.root element = top by rwa [hroot]
  rw [root, climb_eq_iterate]
  obtain ⟨steps, hsteps⟩ := htop.exists_iterate
  rcases Nat.lt_or_ge element sets.parent.size with hlt | hge
  · have hfixed : parentOf sets.parent ((parentOf sets.parent)^[steps] element) =
        (parentOf sets.parent)^[steps] element := by
      rw [hsteps]
      exact htop.parentOf_root
    have hsize := iterate_size_fixed hsound.parent_lt hlt ⟨steps, hfixed⟩
    -- both ends of the longer iteration are fixed, so the order of the two does not matter
    calc (parentOf sets.parent)^[sets.parent.size] element
        = (parentOf sets.parent)^[steps]
            ((parentOf sets.parent)^[sets.parent.size] element) :=
          (Function.iterate_fixed hsize steps).symm
      _ = (parentOf sets.parent)^[sets.parent.size]
            ((parentOf sets.parent)^[steps] element) := by
          rw [← Function.iterate_add_apply, Nat.add_comm, Function.iterate_add_apply]
      _ = top := by
          rw [hsteps, Function.iterate_fixed htop.parentOf_root]
  · have hroot := parentOf_of_size_le hge
    rw [Function.iterate_fixed hroot] at hsteps
    rw [Function.iterate_fixed hroot, hsteps]

theorem Sound.root_eq {sets : DisjointSets} (hsound : sets.Sound) {element top : Nat}
    (hclimbs : Climbs sets.parent element top) : sets.root element = top :=
  (hsound.climbs_root element).unique hclimbs

theorem Sound.parentOf_root {sets : DisjointSets} (hsound : sets.Sound) (element : Nat) :
    parentOf sets.parent (sets.root element) = sets.root element :=
  (hsound.climbs_root element).parentOf_root

theorem Climbs.root_lt {parent : Array Nat} {element root : Nat}
    (hparent : ∀ other < parent.size, parentOf parent other < parent.size)
    (hclimbs : Climbs parent element root) (helement : element < parent.size) :
    root < parent.size := by
  induction hclimbs with
  | root _ => exact helement
  | step _ _ ih => exact ih (hparent _ helement)

theorem Sound.root_lt {sets : DisjointSets} (hsound : sets.Sound) {element : Nat}
    (helement : element < sets.parent.size) : sets.root element < sets.parent.size :=
  (hsound.climbs_root element).root_lt hsound.parent_lt helement

/-! ## Finding -/

theorem parentOf_setIfInBounds {parent : Array Nat} {element : Nat}
    (helement : element < parent.size) (value other : Nat) :
    parentOf (parent.setIfInBounds element value) other =
      if other = element then value else parentOf parent other := by
  by_cases hother : other = element
  · subst other
    simp [parentOf, helement]
  · simp [parentOf, hother, Ne.symm hother]

theorem lt_size_of_parentOf_ne {parent : Array Nat} {element : Nat}
    (hlink : parentOf parent element ≠ element) : element < parent.size := by
  by_contra hout
  exact hlink (parentOf_of_size_le (Nat.le_of_not_lt hout))

/-- Linking an element directly to its root changes no root. -/
theorem Climbs.shortcut {parent : Array Nat} {element root : Nat}
    (hclimbs : Climbs parent element root) (hlink : parentOf parent element ≠ element)
    {other top : Nat} (hother : Climbs parent other top) :
    Climbs (parent.setIfInBounds element root) other top := by
  have hlt := lt_size_of_parentOf_ne hlink
  have hne : ∀ fixed, parentOf parent fixed = fixed → fixed ≠ element := by
    rintro fixed hfixed rfl
    exact hlink hfixed
  have hkept : ∀ fixed, parentOf parent fixed = fixed →
      parentOf (parent.setIfInBounds element root) fixed = fixed := by
    intro fixed hfixed
    rw [parentOf_setIfInBounds hlt, if_neg (hne fixed hfixed), hfixed]
  induction hother with
  | root hroot => exact .root (hkept _ hroot)
  | @step other top hstep hrest ih =>
      by_cases hsame : other = element
      · subst other
        have htop : top = root := (Climbs.step hlink hrest).unique hclimbs
        subst htop
        have hparent : parentOf (parent.setIfInBounds element top) element = top := by
          rw [parentOf_setIfInBounds hlt, if_pos rfl]
        refine .step ?_ ?_
        · rw [hparent]
          exact hne top hclimbs.parentOf_root
        · rw [hparent]
          exact .root (hkept top hclimbs.parentOf_root)
      · have hparent : parentOf (parent.setIfInBounds element root) other =
            parentOf parent other := by
          rw [parentOf_setIfInBounds hlt, if_neg hsame]
        refine .step ?_ ?_
        · rwa [hparent]
        · rwa [hparent]

/-- Every shortcut of a compression keeps all roots. -/
theorem Climbs.compress {root : Nat} (steps : Nat) {element : Nat} {parent : Array Nat}
    (hclimbs : Climbs parent element root) {other top : Nat}
    (hother : Climbs parent other top) :
    Climbs (compress root steps element parent) other top := by
  induction steps generalizing element parent with
  | zero => exact hother
  | succ steps ih =>
      rw [DisjointSets.compress]
      split
      · exact hother
      · next hlink =>
          exact ih (hclimbs.shortcut hlink (hclimbs.of_link hlink))
            (hclimbs.shortcut hlink hother)

theorem parentOf_compress_lt {root : Nat} (steps : Nat) {element : Nat} {parent : Array Nat}
    (hroot : root < parent.size)
    (hparent : ∀ other < parent.size, parentOf parent other < parent.size) :
    ∀ other < parent.size, parentOf (compress root steps element parent) other < parent.size := by
  induction steps generalizing element parent with
  | zero => exact hparent
  | succ steps ih =>
      rw [compress]
      split
      · exact hparent
      · next hlink =>
          have hlt := lt_size_of_parentOf_ne hlink
          have hset : ∀ other < (parent.setIfInBounds element root).size,
              parentOf (parent.setIfInBounds element root) other <
                (parent.setIfInBounds element root).size := by
            intro other hother
            rw [Array.size_setIfInBounds] at hother ⊢
            rw [parentOf_setIfInBounds hlt]
            split
            · exact hroot
            · exact hparent other hother
          simpa using ih (by simpa using hroot) hset

theorem fst_find (sets : DisjointSets) (element : Nat) :
    (sets.find element).1 = sets.root element := rfl

/-- Shortening links keeps the sets sound. -/
theorem Sound.find {sets : DisjointSets} (hsound : sets.Sound) (element : Nat) :
    (sets.find element).2.Sound := by
  constructor
  · intro other hother
    rw [size_parent_find] at hother ⊢
    rcases Nat.lt_or_ge element sets.parent.size with hlt | hge
    · exact parentOf_compress_lt _ (hsound.root_lt hlt) hsound.parent_lt other hother
    · -- an element out of range has no link that could be shortened
      have hsame : compress (sets.root element) sets.parent.size element sets.parent =
          sets.parent := by
        cases sets.parent.size with
        | zero => rfl
        | succ size => rw [compress, if_pos (parentOf_of_size_le hge)]
      simp only [DisjointSets.find]
      rw [hsame]
      exact hsound.parent_lt other hother
  · intro other
    exact ⟨_, (hsound.climbs_root element).compress _ (hsound.climbs_root other)⟩

/-- Finding an element changes no root. -/
theorem Sound.root_find {sets : DisjointSets} (hsound : sets.Sound) (element other : Nat) :
    (sets.find element).2.root other = sets.root other :=
  (hsound.find element).root_eq
    ((hsound.climbs_root element).compress _ (hsound.climbs_root other))

/-! ## Uniting

A union first finds both of its elements. -/

theorem Sound.root_find_find {sets : DisjointSets} (hsound : sets.Sound)
    (left right other : Nat) :
    ((sets.find left).2.find right).2.root other = sets.root other := by
  rw [(hsound.find left).root_find, hsound.root_find]

theorem Sound.parentOf_root_find_find {sets : DisjointSets} (hsound : sets.Sound)
    (left right other : Nat) :
    parentOf ((sets.find left).2.find right).2.parent (sets.root other) = sets.root other := by
  rw [← hsound.root_find_find left right other]
  exact ((hsound.find left).find right).parentOf_root other

theorem Sound.root_lt_find_find {sets : DisjointSets} (hsound : sets.Sound)
    (left right : Nat) {other : Nat} (hother : other < sets.parent.size) :
    sets.root other < ((sets.find left).2.find right).2.parent.size := by
  rw [size_parent_find, size_parent_find]
  exact hsound.root_lt hother

/-- Linking a root below another one moves the elements of its class there. -/
theorem Climbs.link {parent : Array Nat} {winner loser : Nat} (hlt : loser < parent.size)
    (hwinner : parentOf parent winner = winner) (hloser : parentOf parent loser = loser)
    (hne : winner ≠ loser) {other top : Nat} (hother : Climbs parent other top) :
    Climbs (parent.setIfInBounds loser winner) other (if top = loser then winner else top) := by
  induction hother with
  | @root other hroot =>
      by_cases hsame : other = loser
      · subst other
        have hparent : parentOf (parent.setIfInBounds loser winner) loser = winner := by
          rw [parentOf_setIfInBounds hlt, if_pos rfl]
        rw [if_pos rfl]
        refine .step ?_ ?_
        · rwa [hparent]
        · rw [hparent]
          exact .root (by rw [parentOf_setIfInBounds hlt, if_neg hne, hwinner])
      · rw [if_neg hsame]
        exact .root (by rw [parentOf_setIfInBounds hlt, if_neg hsame, hroot])
  | @step other top hlink _ ih =>
      have hsame : other ≠ loser := by
        rintro rfl
        exact hlink hloser
      have hparent : parentOf (parent.setIfInBounds loser winner) other =
          parentOf parent other := by
        rw [parentOf_setIfInBounds hlt, if_neg hsame]
      refine .step ?_ ?_
      · rwa [hparent]
      · rwa [hparent]

/-- Which of two roots is linked below the other one hangs on the ranks only. -/
theorem parent_link (sets : DisjointSets) (left right : Nat) :
    (sets.link left right).parent = sets.parent.setIfInBounds left right ∨
      (sets.link left right).parent = sets.parent.setIfInBounds right left := by
  rw [link]
  split
  · exact .inl rfl
  · exact .inr rfl

theorem Sound.of_link {sets linked : DisjointSets} (hsound : sets.Sound) {winner loser : Nat}
    (hparent : linked.parent = sets.parent.setIfInBounds loser winner)
    (hwinner : parentOf sets.parent winner = winner)
    (hloser : parentOf sets.parent loser = loser) (hne : winner ≠ loser)
    (hwinnerLt : winner < sets.parent.size) (hloserLt : loser < sets.parent.size) :
    linked.Sound ∧
      ∀ other, linked.root other =
        if sets.root other = loser then winner else sets.root other := by
  have hclimbs : ∀ other, Climbs linked.parent other
      (if sets.root other = loser then winner else sets.root other) := by
    intro other
    rw [hparent]
    exact (hsound.climbs_root other).link hloserLt hwinner hloser hne
  have hlinked : linked.Sound := by
    refine ⟨?_, fun other => ⟨_, hclimbs other⟩⟩
    intro other hother
    rw [hparent, Array.size_setIfInBounds] at hother ⊢
    rw [parentOf_setIfInBounds hloserLt]
    split
    · exact hwinnerLt
    · exact hsound.parent_lt other hother
  exact ⟨hlinked, fun other => hlinked.root_eq (hclimbs other)⟩

/-- Uniting two elements gives the class of one of them the root of the other
one and leaves every other class alone. -/
theorem Sound.union {sets : DisjointSets} (hsound : sets.Sound) {left right : Nat}
    (hleft : left < sets.parent.size) (hright : right < sets.parent.size) :
    (sets.union left right).Sound ∧
      ∃ winner loser, (winner = sets.root left ∧ loser = sets.root right ∨
          winner = sets.root right ∧ loser = sets.root left) ∧
        ∀ other, (sets.union left right).root other =
          if sets.root other = loser then winner else sets.root other := by
  have hsecond := (hsound.find left).find right
  have hroot := hsound.root_find_find left right
  have hfixed := hsound.parentOf_root_find_find left right
  have hleftLt := hsound.root_lt_find_find left right hleft
  have hrightLt := hsound.root_lt_find_find left right hright
  simp only [DisjointSets.union, fst_find, hsound.root_find]
  split
  · next hsame =>
      refine ⟨hsecond, sets.root left, sets.root right, .inl ⟨rfl, rfl⟩, ?_⟩
      intro other
      rw [hroot, hsame]
      split
      · next hother => exact hother
      · rfl
  · next hne =>
      rcases parent_link ((sets.find left).2.find right).2 (sets.root left) (sets.root right)
        with hparent | hparent
      · obtain ⟨hlinked, hroots⟩ := hsecond.of_link hparent (hfixed right) (hfixed left)
          (Ne.symm hne) hrightLt hleftLt
        simp only [hroot] at hroots
        exact ⟨hlinked, _, _, .inr ⟨rfl, rfl⟩, hroots⟩
      · obtain ⟨hlinked, hroots⟩ := hsecond.of_link hparent (hfixed left) (hfixed right)
          hne hleftLt hrightLt
        simp only [hroot] at hroots
        exact ⟨hlinked, _, _, .inl ⟨rfl, rfl⟩, hroots⟩

/-! ## The relation that the sets represent -/

/-- The classes of the sets are those of the equivalence that `related`
generates. -/
structure Represents (sets : DisjointSets) (related : Nat → Nat → Prop) : Prop where
  sound : sets.Sound
  eqv_root : ∀ element, Relation.EqvGen related element (sets.root element)
  root_eq : ∀ left right, related left right → sets.root left = sets.root right

/-- Elements have the same root if and only if they are in the same class. -/
theorem Represents.root_eq_iff {sets : DisjointSets} {related : Nat → Nat → Prop}
    (hrep : sets.Represents related) {left right : Nat} :
    sets.root left = sets.root right ↔ Relation.EqvGen related left right := by
  constructor
  · intro hroot
    have hright := hrep.eqv_root right
    rw [← hroot] at hright
    exact (hrep.eqv_root left).trans _ _ _ (hright.symm _ _)
  · intro heqv
    induction heqv with
    | rel left right hrelated => exact hrep.root_eq left right hrelated
    | refl element => rfl
    | symm left right _ ih => exact ih.symm
    | trans left middle right _ _ hleft hright => exact hleft.trans hright

theorem parentOf_singletons (size element : Nat) :
    parentOf (singletons size).parent element = element := by
  rcases Nat.lt_or_ge element size with hlt | hge
  · simp [parentOf, singletons, hlt]
  · exact parentOf_of_size_le (by simpa using hge)

/-- At the start no two elements are related. -/
theorem Represents.singletons (size : Nat) :
    (singletons size).Represents fun _ _ => False := by
  have hroot : ∀ element, Climbs (DisjointSets.singletons size).parent element element :=
    fun element => .root (parentOf_singletons size element)
  have hsound : (DisjointSets.singletons size).Sound := by
    constructor
    · intro element helement
      rwa [parentOf_singletons]
    · exact fun element => ⟨element, hroot element⟩
  refine ⟨hsound, ?_, fun _ _ hfalse => hfalse.elim⟩
  intro element
  rw [hsound.root_eq (hroot element)]
  exact .refl element

/-- Uniting a pair adds it to the relation. -/
theorem Represents.union {sets : DisjointSets} {related : Nat → Nat → Prop}
    (hrep : sets.Represents related) {left right : Nat}
    (hleft : left < sets.parent.size) (hright : right < sets.parent.size) :
    (sets.union left right).Represents fun first second =>
      related first second ∨ first = left ∧ second = right := by
  obtain ⟨hsound, winner, loser, hroots, hroot⟩ := hrep.sound.union hleft hright
  have hmono : ∀ {first second}, Relation.EqvGen related first second →
      Relation.EqvGen (fun first second => related first second ∨ first = left ∧ second = right)
        first second :=
    fun heqv => heqv.mono fun _ _ hrelated => .inl hrelated
  have hpair : Relation.EqvGen
      (fun first second => related first second ∨ first = left ∧ second = right) left right :=
    .rel _ _ (.inr ⟨rfl, rfl⟩)
  have htops : Relation.EqvGen
      (fun first second => related first second ∨ first = left ∧ second = right)
      (sets.root left) (sets.root right) :=
    ((hmono (hrep.eqv_root left)).symm.trans _ _ _ hpair).trans _ _ _
      (hmono (hrep.eqv_root right))
  refine ⟨hsound, ?_, ?_⟩
  · intro element
    rw [hroot]
    split
    · next hloser =>
        have helement := hmono (hrep.eqv_root element)
        rw [hloser] at helement
        refine helement.trans _ _ _ ?_
        rcases hroots with ⟨rfl, rfl⟩ | ⟨rfl, rfl⟩
        · exact htops.symm
        · exact htops
    · exact hmono (hrep.eqv_root element)
  · rintro first second (hrelated | ⟨rfl, rfl⟩)
    · rw [hroot, hroot, hrep.root_eq first second hrelated]
    · rw [hroot, hroot]
      rcases hroots with ⟨rfl, rfl⟩ | ⟨rfl, rfl⟩ <;> simp

end AverageLinkage.DisjointSets
