import Mathlib
import AverageLinkage.Proofs.SetCalls

/-!
# Ranks and the sizes of classes

Ranks rise along every link, so the rank of a root bounds the chains that lead to it.
A rank only rises when a class meets another one of the same rank, so a root of rank
`r` has at least `2 ^ r` elements in its class.  Shortening links touches neither:
it moves elements below a root that was above them before, and their class stays.

A rank is kept in one byte.  It would stay at its largest value when two classes of
`2 ^ 255` elements meet, so ranks are exact below `2 ^ 256` elements.
-/

namespace AverageLinkage.DisjointSets

/-! ## Ranks along chains -/

/-- Every link leads to a greater rank. -/
def Rises (rank : Nat → Nat) (parent : Array Nat) : Prop :=
  ∀ element, parentOf parent element ≠ element → rank element < rank (parentOf parent element)

section

variable {rank : Nat → Nat} {parent : Array Nat} {element root : Nat}

/-- Every link of a chain takes at least one rank. -/
theorem Rises.exists_links (hrises : Rises rank parent) (hclimbs : Climbs parent element root) :
    ∃ links, rank element + links ≤ rank root ∧ (parentOf parent)^[links] element = root := by
  induction hclimbs with
  | root _ => exact ⟨0, le_rfl, rfl⟩
  | @step element root hlink _ ih =>
      obtain ⟨links, hle, hiterate⟩ := ih
      have hlt := hrises element hlink
      exact ⟨links + 1, by omega, hiterate⟩

theorem Rises.le_root (hrises : Rises rank parent) (hclimbs : Climbs parent element root) :
    rank element ≤ rank root := by
  obtain ⟨links, hle, -⟩ := hrises.exists_links hclimbs
  omega

theorem Rises.lt_root (hrises : Rises rank parent) (hclimbs : Climbs parent element root)
    (hlink : parentOf parent element ≠ element) : rank element < rank root :=
  lt_of_lt_of_le (hrises element hlink) (hrises.le_root (hclimbs.of_link hlink))

theorem Rises.shortcut (hrises : Rises rank parent) (hclimbs : Climbs parent element root)
    (hlink : parentOf parent element ≠ element) :
    Rises rank (parent.setIfInBounds element root) := by
  intro other hother
  rw [parentOf_setIfInBounds (lt_size_of_parentOf_ne hlink)] at hother ⊢
  split at hother
  · next hsame =>
      rw [if_pos hsame, hsame]
      exact hrises.lt_root hclimbs hlink
  · next hsame =>
      rw [if_neg hsame]
      exact hrises other hother

/-- Shortcuts to the root lead to a greater rank as well. -/
theorem Rises.compress (hrises : Rises rank parent) (steps : Nat)
    (hclimbs : Climbs parent element root) :
    Rises rank (DisjointSets.compress root steps element parent) := by
  induction steps generalizing element parent with
  | zero => exact hrises
  | succ steps ih =>
      rw [DisjointSets.compress]
      split
      · exact hrises
      · next hlink =>
          exact ih (hrises.shortcut hclimbs hlink)
            (hclimbs.shortcut hlink (hclimbs.of_link hlink))

end

/-! ## Linking by rank -/

/-- The root `loser` of `sets` is linked below the root `winner`, whose rank is not
smaller and goes up if the two are equal. -/
structure Links (sets linked : DisjointSets) (winner loser : Nat) : Prop where
  winner_lt : winner < sets.parent.size
  loser_lt : loser < sets.parent.size
  parentOf_winner : parentOf sets.parent winner = winner
  parentOf_loser : parentOf sets.parent loser = loser
  ne : winner ≠ loser
  rank_le : sets.rankOf loser ≤ sets.rankOf winner
  parent_eq : linked.parent = sets.parent.setIfInBounds loser winner
  size_rank : linked.rank.size = sets.rank.size
  rankOf_eq : ∀ element, linked.rankOf element =
    if element = winner ∧ sets.rankOf loser = sets.rankOf winner then
      nextRank (sets.rankOf winner)
    else sets.rankOf element

theorem rankOf_setIfInBounds {rank : Array Nat} {winner : Nat} (hwinner : winner < rank.size)
    (parent : Array Nat) (value element : Nat) :
    rankOf { parent, rank := rank.setIfInBounds winner value } element =
      if element = winner then value else rankOf { parent, rank } element := by
  by_cases hsame : element = winner
  · subst element
    simp [rankOf, hwinner]
  · simp [rankOf, hsame, Ne.symm hsame]

/-- A link by rank, whichever of the two roots comes out on top. -/
theorem exists_links_link {sets : DisjointSets} (hsize : sets.rank.size = sets.parent.size)
    {left right : Nat} (hleftLt : left < sets.parent.size) (hrightLt : right < sets.parent.size)
    (hleft : parentOf sets.parent left = left) (hright : parentOf sets.parent right = right)
    (hne : left ≠ right) :
    ∃ winner loser, Links sets (sets.link left right) winner loser := by
  by_cases hless : sets.rankOf left < sets.rankOf right
  · refine ⟨right, left, hrightLt, hleftLt, hright, hleft, hne.symm, hless.le, ?_, ?_, ?_⟩
    · rw [link, if_pos hless]
    · simp
    · intro element
      rw [if_neg fun hboth => hless.ne hboth.2, link, if_pos hless]
      rfl
  · refine ⟨left, right, hleftLt, hrightLt, hleft, hright, hne, Nat.le_of_not_lt hless,
      ?_, ?_, ?_⟩
    · rw [link, if_neg hless]
    · simp
    · intro element
      rw [link, if_neg hless]
      by_cases hequal : sets.rankOf left = sets.rankOf right
      · rw [if_pos hequal, rankOf_setIfInBounds (by rwa [hsize])]
        simp only [hequal, and_true]
        rfl
      · rw [if_neg hequal, if_neg fun hboth : element = left ∧ _ => hequal hboth.2.symm]
        rfl

namespace Links

variable {sets linked : DisjointSets} {winner loser : Nat}

theorem size_parent (hlinks : Links sets linked winner loser) :
    linked.parent.size = sets.parent.size := by
  rw [hlinks.parent_eq, Array.size_setIfInBounds]

theorem parentOf_linked (hlinks : Links sets linked winner loser) (element : Nat) :
    parentOf linked.parent element =
      if element = loser then winner else parentOf sets.parent element := by
  rw [hlinks.parent_eq, parentOf_setIfInBounds hlinks.loser_lt]

theorem rankOf_of_ne (hlinks : Links sets linked winner loser) {element : Nat}
    (hne : element ≠ winner) : linked.rankOf element = sets.rankOf element := by
  rw [hlinks.rankOf_eq, if_neg fun hboth => hne hboth.1]

theorem sound_linked (hlinks : Links sets linked winner loser) (hsound : sets.Sound) :
    linked.Sound ∧ ∀ other, linked.root other =
      if sets.root other = loser then winner else sets.root other :=
  hsound.of_link hlinks.parent_eq hlinks.parentOf_winner hlinks.parentOf_loser hlinks.ne
    hlinks.winner_lt hlinks.loser_lt

/-- The new rank of the winner does not stop at the largest one as long as no two
classes of that rank meet. -/
theorem rises (hlinks : Links sets linked winner loser)
    (hrises : Rises sets.rankOf sets.parent)
    (hroom : sets.rankOf loser = sets.rankOf winner → sets.rankOf winner < rankLimit) :
    Rises linked.rankOf linked.parent := by
  have hraised : sets.rankOf winner ≤ linked.rankOf winner ∧
      sets.rankOf loser < linked.rankOf winner := by
    have hle := hlinks.rank_le
    by_cases hequal : sets.rankOf loser = sets.rankOf winner
    · have := hroom hequal
      rw [hlinks.rankOf_eq, if_pos ⟨rfl, hequal⟩, nextRank]
      omega
    · rw [hlinks.rankOf_eq, if_neg fun hboth => hequal hboth.2]
      omega
  intro element hlink
  rw [hlinks.parentOf_linked] at hlink ⊢
  split at hlink
  · next hsame =>
      rw [if_pos hsame, hsame, hlinks.rankOf_of_ne hlinks.ne.symm]
      exact hraised.2
  · next hsame =>
      rw [if_neg hsame]
      have hbelow := hrises element hlink
      -- an element with a link is no root, so its own rank stays
      have hne : element ≠ winner := by
        rintro rfl
        exact hlink hlinks.parentOf_winner
      rw [hlinks.rankOf_of_ne hne]
      by_cases htop : parentOf sets.parent element = winner
      · rw [htop] at hbelow ⊢
        exact lt_of_lt_of_le hbelow hraised.1
      · rwa [hlinks.rankOf_of_ne htop]

end Links

/-! ## Sizes of classes -/

theorem Sound.root_eq_self_iff {sets : DisjointSets} (hsound : sets.Sound) {element : Nat} :
    sets.root element = element ↔ parentOf sets.parent element = element := by
  constructor
  · intro hroot
    have hfixed := hsound.parentOf_root element
    rwa [hroot] at hfixed
  · exact fun hroot => hsound.root_eq (.root hroot)

theorem Sound.mem_classOf_root {sets : DisjointSets} (hsound : sets.Sound) {root : Nat}
    (hlt : root < sets.parent.size) (hroot : parentOf sets.parent root = root) {other : Nat} :
    other ∈ sets.classOf root ↔ other < sets.parent.size ∧ sets.root other = root := by
  rw [classOf, Finset.mem_filter, Finset.mem_range]
  refine and_congr_right fun hother => ?_
  rw [hsound.rootOf?_eq hother, hsound.rootOf?_eq hlt, Option.some.injEq,
    hsound.root_eq_self_iff.mpr hroot]

theorem card_classOf_le (sets : DisjointSets) (element : Nat) :
    (sets.classOf element).card ≤ sets.parent.size := by
  calc (sets.classOf element).card ≤ (Finset.range sets.parent.size).card :=
        Finset.card_filter_le _ _
    _ = sets.parent.size := Finset.card_range _

namespace Links

variable {sets linked : DisjointSets} {winner loser : Nat}

/-- The class of the winner takes in that of the loser. -/
theorem card_classOf_winner (hlinks : Links sets linked winner loser) (hsound : sets.Sound) :
    (linked.classOf winner).card = (sets.classOf winner).card + (sets.classOf loser).card := by
  obtain ⟨hlinked, hroots⟩ := hlinks.sound_linked hsound
  have hwinner : parentOf linked.parent winner = winner := by
    rw [hlinks.parentOf_linked, if_neg hlinks.ne, hlinks.parentOf_winner]
  have hlt : winner < linked.parent.size := by
    rw [hlinks.size_parent]
    exact hlinks.winner_lt
  have hunion : linked.classOf winner = sets.classOf winner ∪ sets.classOf loser := by
    ext other
    rw [Finset.mem_union, hlinked.mem_classOf_root hlt hwinner,
      hsound.mem_classOf_root hlinks.winner_lt hlinks.parentOf_winner,
      hsound.mem_classOf_root hlinks.loser_lt hlinks.parentOf_loser, hroots, hlinks.size_parent]
    by_cases hother : sets.root other = loser
    · simp [hother, hlinks.ne.symm]
    · simp [hother]
  have hdisjoint : Disjoint (sets.classOf winner) (sets.classOf loser) := by
    rw [Finset.disjoint_left]
    intro other hother hsame
    rw [hsound.mem_classOf_root hlinks.winner_lt hlinks.parentOf_winner] at hother
    rw [hsound.mem_classOf_root hlinks.loser_lt hlinks.parentOf_loser] at hsame
    exact hlinks.ne (hother.2.symm.trans hsame.2)
  rw [hunion, Finset.card_union_of_disjoint hdisjoint]

theorem classOf_of_ne (hlinks : Links sets linked winner loser) (hsound : sets.Sound)
    {root : Nat} (hlt : root < sets.parent.size) (hroot : parentOf sets.parent root = root)
    (hwinner : root ≠ winner) (hloser : root ≠ loser) :
    linked.classOf root = sets.classOf root := by
  obtain ⟨hlinked, hroots⟩ := hlinks.sound_linked hsound
  have hkept : parentOf linked.parent root = root := by
    rw [hlinks.parentOf_linked, if_neg hloser, hroot]
  ext other
  rw [hlinked.mem_classOf_root (by rwa [hlinks.size_parent]) hkept,
    hsound.mem_classOf_root hlt hroot, hroots, hlinks.size_parent]
  refine and_congr_right fun _ => ?_
  split
  · next hother =>
      rw [hother]
      exact iff_of_false hwinner.symm hloser.symm
  · rfl

end Links

/-- Ranks rise along links, and a class has enough elements for the rank of its root. -/
structure Ranked (sets : DisjointSets) : Prop where
  sound : sets.Sound
  size_rank : sets.rank.size = sets.parent.size
  rises : sets.parent.size < 2 ^ 256 → Rises sets.rankOf sets.parent
  two_pow_le : ∀ root < sets.parent.size, parentOf sets.parent root = root →
    2 ^ sets.rankOf root ≤ (sets.classOf root).card

namespace Ranked

variable {sets linked : DisjointSets}

theorem start (size : Nat) : (singletons size).Ranked := by
  have hsound := (Represents.singletons size).sound
  refine ⟨hsound, by simp, fun _ element hlink => absurd (parentOf_singletons size element) hlink,
    ?_⟩
  intro root hlt hroot
  have hrank : (singletons size).rankOf root = 0 := by
    rw [size_parent_singletons] at hlt
    simp [rankOf, singletons, hlt]
  rw [hrank, Nat.pow_zero, Nat.one_le_iff_ne_zero, Finset.card_ne_zero]
  exact ⟨root, (hsound.mem_classOf_root hlt hroot).mpr ⟨hlt, hsound.root_eq_self_iff.mpr hroot⟩⟩

theorem find (hranked : sets.Ranked) (element : Nat) : (sets.find element).2.Ranked := by
  have hsound := hranked.sound
  refine ⟨hsound.find element, by simpa using hranked.size_rank, ?_, ?_⟩
  · intro hsize
    rw [size_parent_find] at hsize
    exact (hranked.rises hsize).compress _ (hsound.climbs_root element)
  · intro root hlt hroot
    rw [size_parent_find] at hlt
    have hkept : parentOf sets.parent root = root := by
      rw [← (hsound.find element).root_eq_self_iff, hsound.root_find] at hroot
      exact hsound.root_eq_self_iff.mp hroot
    rw [hsound.classOf_find]
    exact hranked.two_pow_le root hlt hkept

/-- Two classes with roots of the same rank are together large enough for the next rank. -/
theorem two_pow_succ_le {winner loser : Nat} (hranked : sets.Ranked)
    (hlinks : Links sets linked winner loser) (hequal : sets.rankOf loser = sets.rankOf winner) :
    2 ^ (sets.rankOf winner + 1) ≤ (linked.classOf winner).card := by
  have hwinner := hranked.two_pow_le winner hlinks.winner_lt hlinks.parentOf_winner
  have hloser := hranked.two_pow_le loser hlinks.loser_lt hlinks.parentOf_loser
  rw [hequal] at hloser
  calc 2 ^ (sets.rankOf winner + 1) = 2 ^ sets.rankOf winner + 2 ^ sets.rankOf winner := by
        rw [Nat.pow_succ, Nat.mul_two]
    _ ≤ (sets.classOf winner).card + (sets.classOf loser).card := Nat.add_le_add hwinner hloser
    _ = (linked.classOf winner).card := (hlinks.card_classOf_winner hranked.sound).symm

theorem link {winner loser : Nat} (hranked : sets.Ranked)
    (hlinks : Links sets linked winner loser) : linked.Ranked := by
  have hsound := hranked.sound
  refine ⟨(hlinks.sound_linked hsound).1, ?_, ?_, ?_⟩
  · rw [hlinks.size_rank, hranked.size_rank, hlinks.size_parent]
  · intro hsize
    refine hlinks.rises (hranked.rises (by rwa [← hlinks.size_parent])) fun hequal => ?_
    -- two classes of the largest rank would have `2 ^ 256` elements together
    have hpow : 2 ^ (sets.rankOf winner + 1) < 2 ^ 256 :=
      calc 2 ^ (sets.rankOf winner + 1) ≤ (linked.classOf winner).card :=
            hranked.two_pow_succ_le hlinks hequal
        _ ≤ linked.parent.size := card_classOf_le linked winner
        _ < 2 ^ 256 := hsize
    have hlt := (Nat.pow_lt_pow_iff_right Nat.one_lt_two).mp hpow
    rw [rankLimit]
    omega
  · intro root hlt hroot
    rw [hlinks.size_parent] at hlt
    rw [hlinks.parentOf_linked] at hroot
    split at hroot
    · next hsame => exact absurd (hroot.trans hsame) hlinks.ne
    · next hloser =>
        by_cases hwinner : root = winner
        · subst hwinner
          by_cases hequal : sets.rankOf loser = sets.rankOf root
          · have hnext : nextRank (sets.rankOf root) ≤ sets.rankOf root + 1 := Nat.min_le_left _ _
            rw [hlinks.rankOf_eq, if_pos ⟨rfl, hequal⟩]
            exact (Nat.pow_le_pow_right Nat.two_pos hnext).trans
              (hranked.two_pow_succ_le hlinks hequal)
          · rw [hlinks.rankOf_eq, if_neg fun hboth => hequal hboth.2,
              hlinks.card_classOf_winner hsound]
            exact (hranked.two_pow_le root hlt hroot).trans (Nat.le_add_right _ _)
        · rw [hlinks.rankOf_of_ne hwinner, hlinks.classOf_of_ne hsound hlt hroot hwinner hloser]
          exact hranked.two_pow_le root hlt hroot

theorem union (hranked : sets.Ranked) {left right : Nat} (hleft : left < sets.parent.size)
    (hright : right < sets.parent.size) : (sets.union left right).Ranked := by
  have hsound := hranked.sound
  have hsecond := (hranked.find left).find right
  simp only [DisjointSets.union, fst_find, hsound.root_find]
  split
  · exact hsecond
  · next hne =>
      obtain ⟨winner, loser, hlinks⟩ := exists_links_link hsecond.size_rank
        (hsound.root_lt_find_find left right hleft) (hsound.root_lt_find_find left right hright)
        (hsound.parentOf_root_find_find left right left)
        (hsound.parentOf_root_find_find left right right) hne
      exact hsecond.link hlinks

theorem run (hranked : sets.Ranked) {call : Call} (hcall : call.InRange sets.parent.size) :
    (call.run sets).Ranked := by
  cases call with
  | find element => exact hranked.find element
  | union left right => exact hranked.union hcall.1 hcall.2

/-! ## Bounds on ranks and chains -/

/-- The rank of a root is bounded by the size of its class, and every other rank by the
one of its root. -/
theorem rankOf_root_lt (hranked : sets.Ranked) {bits : Nat} (hsize : sets.parent.size < 2 ^ bits)
    {element : Nat} (helement : element < sets.parent.size) :
    sets.rankOf (sets.root element) < bits := by
  have hpow : 2 ^ sets.rankOf (sets.root element) < 2 ^ bits :=
    calc 2 ^ sets.rankOf (sets.root element) ≤ (sets.classOf (sets.root element)).card :=
          hranked.two_pow_le _ (hranked.sound.root_lt helement)
            (hranked.sound.parentOf_root element)
      _ ≤ sets.parent.size := card_classOf_le sets _
      _ < 2 ^ bits := hsize
  exact (Nat.pow_lt_pow_iff_right Nat.one_lt_two).mp hpow

theorem rankOf_lt (hranked : sets.Ranked) {bits : Nat} (hbits : bits ≤ 256)
    (hsize : sets.parent.size < 2 ^ bits) {element : Nat}
    (helement : element < sets.parent.size) : sets.rankOf element < bits := by
  have hrises := hranked.rises (hsize.trans_le (Nat.pow_le_pow_right Nat.two_pos hbits))
  exact lt_of_le_of_lt (hrises.le_root (hranked.sound.climbs_root element))
    (hranked.rankOf_root_lt hsize helement)

/-- The rank of a root bounds the links below it, and the size of its class bounds its rank. -/
theorem exists_links_lt (hranked : sets.Ranked) {bits : Nat} (hbits : bits ≤ 256)
    (hsize : sets.parent.size < 2 ^ bits) {element : Nat}
    (helement : element < sets.parent.size) :
    ∃ links < bits, (parentOf sets.parent)^[links] element = sets.root element := by
  have hrises := hranked.rises (hsize.trans_le (Nat.pow_le_pow_right Nat.two_pos hbits))
  obtain ⟨links, hle, hlinks⟩ := hrises.exists_links (hranked.sound.climbs_root element)
  have hlt := hranked.rankOf_root_lt hsize helement
  exact ⟨links, by omega, hlinks⟩

end Ranked

/-- After every sequence of calls, ranks rise along every link, for as many elements as one
byte can rank, and a root of rank `r` has at least `2 ^ r` elements in its class.  Hence
with fewer than `2 ^ 64` elements no rank exceeds 63 or stops at the largest value, and no
find follows more than 63 links. -/
theorem afterCalls?_ranks (size : Nat) (calls : List Call)
    (hcalls : ∀ call ∈ calls, call.InRange size) :
    ∃ sets, afterCalls? size calls = some sets ∧
      sets.parent.size = size ∧ sets.rank.size = size ∧
      (size < 2 ^ 256 → ∀ element < size, parentOf sets.parent element ≠ element →
        sets.rankOf element < sets.rankOf (parentOf sets.parent element)) ∧
      (∀ root < size, parentOf sets.parent root = root →
        2 ^ sets.rankOf root ≤ (sets.classOf root).card) ∧
      (size < 2 ^ 64 →
        (∀ rank ∈ sets.rank, rank ≤ 63 ∧ nextRank rank = rank + 1) ∧
        ∀ element < size, ∃ root shorter, sets.find? element = some (root, shorter) ∧
          EndsWithin (fun steps => climb? sets.parent steps element) 63 root ∧
          EndsWithin (fun steps => compress? root steps element sets.parent) 63
            shorter.parent) := by
  obtain ⟨sets, hsets, hparent, hrank, hranked⟩ :=
    exists_afterCalls? (motive := fun _ sets => sets.Ranked) (fun _ _ hranked => hranked.sound)
      (Ranked.start size) (fun _ _ _ hsize hcall hranked => hranked.run (by rwa [hsize]))
      calls hcalls
  subst hparent
  refine ⟨sets, hsets, rfl, hrank, fun hsize element _ => hranked.rises hsize element,
    hranked.two_pow_le, fun hsize => ⟨?_, ?_⟩⟩
  · intro rank hmem
    obtain ⟨element, helement, rfl⟩ := Array.mem_iff_getElem.mp hmem
    have hlt := hranked.rankOf_lt (by decide) hsize (hrank ▸ helement)
    have hget : sets.rankOf element = sets.rank[element] := by simp [rankOf, helement]
    rw [hget] at hlt
    refine ⟨by omega, ?_⟩
    rw [nextRank, rankLimit]
    omega
  · intro element helement
    obtain ⟨links, hlt, hlinks⟩ := hranked.exists_links_lt (by decide) hsize helement
    have hends := hranked.sound.endsWithin helement hlinks
    exact ⟨sets.root element, (sets.find element).2, hranked.sound.find?_eq helement,
      hends.1.mono (by omega), hends.2.mono (by omega)⟩

/-- A chain of two links takes three ranks, and its root of rank 2 has a class of four. -/
theorem afterCalls?_ranks_chained :
    (∀ call ∈ chained, call.InRange 5) ∧
    ∃ sets, afterCalls? 5 chained = some sets ∧ sets.rank = #[2, 0, 0, 1, 0] ∧
      sets.rankOf 4 < sets.rankOf 3 ∧ sets.rankOf 3 < sets.rankOf 0 ∧
      2 ^ 2 ≤ (sets.classOf 0).card ∧
      (∀ rank ∈ sets.rank, rank ≤ 63 ∧ nextRank rank = rank + 1) ∧
      ∃ root shorter, sets.find? 4 = some (root, shorter) ∧
        EndsWithin (fun steps => climb? sets.parent steps 4) 63 root ∧
        EndsWithin (fun steps => compress? root steps 4 sets.parent) 63 shorter.parent := by
  have hcalls : ∀ call ∈ chained, call.InRange 5 := by decide
  obtain ⟨sets, hsets, -, -, hrises, hclasses, hbounds⟩ := afterCalls?_ranks 5 chained hcalls
  have hvalue : afterCalls? 5 chained = some ⟨#[0, 0, 2, 0, 3], #[2, 0, 0, 1, 0]⟩ := by decide
  obtain rfl := Option.some.inj (hsets.symm.trans hvalue)
  have hfew : 5 < 2 ^ 64 := by decide
  exact ⟨hcalls, _, hsets, rfl, hrises (by decide) 4 (by decide) (by decide),
    hrises (by decide) 3 (by decide) (by decide), hclasses 0 (by decide) (by decide),
    (hbounds hfew).1, (hbounds hfew).2 4 (by decide)⟩

end AverageLinkage.DisjointSets
