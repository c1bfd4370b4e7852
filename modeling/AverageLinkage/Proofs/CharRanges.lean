import Mathlib
import AverageLinkage.Pattern.CharSet

/-!
# Ranges of characters

The normal form of a set has the characters of the set, and two sets have the same normal
form exactly if they have the same characters.

A set changes only at its bounds.  So between two bounds that are neighbours in their order
the lower one decides, and the ranges that come out are in order with gaps between them.
Ranges of this kind are determined by the code points in them.
-/

namespace AverageLinkage.CharSet

variable {first last code : Nat} {ranges left right : List (Nat × Nat)}

/-- A code point lies in one of some ranges. -/
def InRanges (ranges : List (Nat × Nat)) (code : Nat) : Prop :=
  ∃ range ∈ ranges, range.1 ≤ code ∧ code ≤ range.2

@[simp]
theorem not_inRanges_nil : ¬InRanges [] code := by
  simp [InRanges]

@[simp]
theorem inRanges_cons :
    InRanges ((first, last) :: ranges) code ↔
      (first ≤ code ∧ code ≤ last) ∨ InRanges ranges code := by
  simp [InRanges]

theorem holdsCode_ofRanges : (ofRanges ranges).holdsCode code = true ↔ InRanges ranges code := by
  fun_induction ofRanges ranges with
  | case1 => simp [holdsCode]
  | case2 first last => simp [holdsCode]
  | case3 first last rest hrest ih => simp [holdsCode, ih]

/-- Ranges in order, none of which is empty or touches the next one. -/
def Separated (ranges : List (Nat × Nat)) : Prop :=
  (∀ range ∈ ranges, range.1 ≤ range.2) ∧ ranges.Pairwise fun range next => range.2 + 1 < next.1

theorem separated_cons :
    Separated ((first, last) :: ranges) ↔
      first ≤ last ∧ (∀ range ∈ ranges, last + 1 < range.1) ∧ Separated ranges := by
  simp only [Separated, List.forall_mem_cons, List.pairwise_cons]
  tauto

/-! ## Ranges among bounds -/

/-- Joining two ranges that touch adds no code point. -/
theorem inRanges_consRange (hsep : Separated ranges) (hle : first ≤ last) :
    InRanges (consRange first last ranges) code ↔
      (first ≤ code ∧ code ≤ last) ∨ InRanges ranges code := by
  fun_cases consRange first last ranges with
  | case1 => simp
  | case2 stop rest =>
      obtain ⟨hstop, -, -⟩ := separated_cons.mp hsep
      have hjoined : (first ≤ code ∧ code ≤ stop) ↔
          (first ≤ code ∧ code ≤ last) ∨ (last + 1 ≤ code ∧ code ≤ stop) := by omega
      rw [inRanges_cons, inRanges_cons, hjoined, or_assoc]
  | case3 next stop rest hapart => simp

/-- A range put before others stays apart from them, or becomes one with the first. -/
theorem Separated.consRange (hsep : Separated ranges) (hle : first ≤ last)
    (hbefore : ∀ range ∈ ranges, last < range.1) :
    Separated (consRange first last ranges) := by
  fun_cases CharSet.consRange first last ranges with
  | case1 => exact separated_cons.mpr ⟨hle, by simp, hsep⟩
  | case2 stop rest =>
      obtain ⟨hstop, hafter, hrest⟩ := separated_cons.mp hsep
      exact separated_cons.mpr ⟨by omega, hafter, hrest⟩
  | case3 next stop rest hapart =>
      obtain ⟨hstop, hafter, hrest⟩ := separated_cons.mp hsep
      have hnext := hbefore (next, stop) List.mem_cons_self
      dsimp only at hnext
      refine separated_cons.mpr ⟨hle, ?_, hsep⟩
      rintro ⟨low, high⟩ hmem
      rcases List.mem_cons.mp hmem with heq | hmem
      · cases heq
        dsimp only
        omega
      · have := hafter _ hmem
        dsimp only at this ⊢
        omega

/-- A set does not change between its bounds. -/
theorem holdsCode_eq_of_bounds (set : CharSet) {low high : Nat} (hle : low ≤ high)
    (hbounds : ∀ bound ∈ set.bounds, bound ≤ low ∨ high < bound) :
    set.holdsCode high = set.holdsCode low := by
  induction set with
  | none => rfl
  | range first last =>
      have hfirst := hbounds first (by simp [bounds])
      have hlast := hbounds (last + 1) (by simp [bounds])
      simp only [holdsCode]
      congr 1
      · exact decide_eq_decide.mpr (by omega)
      · exact decide_eq_decide.mpr (by omega)
  | union left right ihleft ihright
  | inter left right ihleft ihright
  | diff left right ihleft ihright
  | symmDiff left right ihleft ihright =>
      obtain ⟨hleft, hright⟩ := List.forall_mem_append.mp hbounds
      simp only [holdsCode, ihleft hleft, ihright hright]
  | compl set ih => simp only [holdsCode, ih hbounds]

/-- Validity of code points changes at the bounds only. -/
theorem isValidChar_iff_of_codeBounds {low high : Nat} (hle : low ≤ high)
    (hbounds : ∀ bound ∈ codeBounds, bound ≤ low ∨ high < bound) :
    high.isValidChar ↔ low.isValidChar := by
  simp only [codeBounds, List.forall_mem_cons] at hbounds
  unfold Nat.isValidChar
  omega

/-- A code point is that of a character in a set. -/
def Holds (set : CharSet) (code : Nat) : Prop :=
  code.isValidChar ∧ set.holdsCode code = true

/-- Membership in a set changes at the bounds of the set only. -/
theorem holds_iff_of_bounds (set : CharSet) {low high : Nat} (hle : low ≤ high)
    (hbounds : ∀ bound ∈ codeBounds ++ set.bounds, bound ≤ low ∨ high < bound) :
    set.Holds high ↔ set.Holds low := by
  obtain ⟨hcodes, hset⟩ := List.forall_mem_append.mp hbounds
  rw [Holds, Holds, isValidChar_iff_of_codeBounds hle hcodes, holdsCode_eq_of_bounds set hle hset]

/-- The characters below some bound are those below the next one, which are all like the
first, and those from there on. -/
theorem holds_below_iff {set : CharSet} {next : Nat} {rest : List Nat} (hnext : first ≤ next)
    (hlike : ∀ code, first ≤ code → code < next → (set.Holds code ↔ set.Holds first)) :
    (first ≤ code ∧ (∃ bound ∈ next :: rest, code < bound) ∧ set.Holds code) ↔
      (first ≤ code ∧ code < next ∧ set.Holds first) ∨
        (next ≤ code ∧ (∃ bound ∈ rest, code < bound) ∧ set.Holds code) := by
  constructor
  · rintro ⟨hlow, ⟨bound, hbound, hlt⟩, hholds⟩
    by_cases hcode : code < next
    · exact .inl ⟨hlow, hcode, (hlike code hlow hcode).mp hholds⟩
    · rcases List.mem_cons.mp hbound with rfl | hbound
      · contradiction
      · exact .inr ⟨Nat.le_of_not_lt hcode, ⟨bound, hbound, hlt⟩, hholds⟩
  · rintro (⟨hlow, hhigh, hholds⟩ | ⟨hge, ⟨bound, hbound, hlt⟩, hholds⟩)
    · exact ⟨hlow, ⟨next, List.mem_cons_self, hhigh⟩, (hlike code hlow hhigh).mpr hholds⟩
    · exact ⟨hnext.trans hge, ⟨bound, List.mem_cons_of_mem _ hbound, hlt⟩, hholds⟩

/-- The ranges among bounds have the characters between the bounds, if no bound of the set
is missing. -/
theorem rangesAmong_spec (set : CharSet) {first : Nat} {rest : List Nat}
    (hsorted : (first :: rest).Pairwise (· ≤ ·))
    (hbounds : ∀ bound ∈ codeBounds ++ set.bounds, bound ≤ first ∨ bound ∈ rest) :
    Separated (set.rangesAmong (first :: rest)) ∧
      ∀ code, InRanges (set.rangesAmong (first :: rest)) code ↔
        first ≤ code ∧ (∃ bound ∈ rest, code < bound) ∧ set.Holds code := by
  induction rest generalizing first with
  | nil => simp [rangesAmong, Separated]
  | cons next rest ih =>
      obtain ⟨hfirst, hrest⟩ := List.pairwise_cons.mp hsorted
      have hnext : first ≤ next := hfirst next List.mem_cons_self
      have hlater := (List.pairwise_cons.mp hrest).1
      have hcases : ∀ bound ∈ codeBounds ++ set.bounds,
          bound ≤ first ∨ bound = next ∨ bound ∈ rest := by
        simpa only [List.mem_cons] using hbounds
      obtain ⟨hsep, hiff⟩ := ih hrest fun bound hbound => by
        rcases hcases bound hbound with hle | rfl | hmem
        · exact .inl (hle.trans hnext)
        · exact .inl le_rfl
        · exact .inr hmem
      have hlike : ∀ code, first ≤ code → code < next → (set.Holds code ↔ set.Holds first) := by
        intro code hlow hhigh
        refine set.holds_iff_of_bounds hlow fun bound hbound => ?_
        rcases hcases bound hbound with hle | rfl | hmem
        · exact .inl hle
        · exact .inr hhigh
        · exact .inr (hhigh.trans_le (hlater bound hmem))
      rw [rangesAmong]
      split
      · next hheld =>
        simp only [Bool.and_eq_true, decide_eq_true_eq] at hheld
        obtain ⟨⟨hlt, hvalid⟩, hcode⟩ := hheld
        have hle : first ≤ next - 1 := by omega
        refine ⟨hsep.consRange hle ?_, fun code => ?_⟩
        · rintro ⟨low, high⟩ hmem
          have hlow := ((hiff low).mp ⟨(low, high), hmem, le_rfl, hsep.1 _ hmem⟩).1
          dsimp only
          omega
        · have hholds : set.Holds first := ⟨hvalid, hcode⟩
          have hrange : (first ≤ code ∧ code ≤ next - 1) ↔
              first ≤ code ∧ code < next ∧ set.Holds first := by
            rw [iff_true_intro hholds, and_true]
            omega
          rw [inRanges_consRange hsep hle, hiff, holds_below_iff hnext hlike, hrange]
      · next hheld =>
        simp only [Bool.and_eq_true, decide_eq_true_eq] at hheld
        refine ⟨hsep, fun code => ?_⟩
        rw [hiff, holds_below_iff hnext hlike, or_iff_right]
        rintro ⟨hlow, hhigh, hvalid, hcode⟩
        exact hheld ⟨⟨by omega, hvalid⟩, hcode⟩

/-- The ranges of a set have exactly its characters. -/
theorem ranges_spec (set : CharSet) :
    Separated set.ranges ∧ ∀ code, InRanges set.ranges code ↔ set.Holds code := by
  have hsorted : ((codeBounds ++ set.bounds).mergeSort fun left right =>
      decide (left ≤ right)).Pairwise (· ≤ ·) := by
    have htrans : ∀ low middle high : Nat, decide (low ≤ middle) = true →
        decide (middle ≤ high) = true → decide (low ≤ high) = true := by
      simpa using fun _ _ _ => Nat.le_trans
    have htotal : ∀ low high : Nat, (decide (low ≤ high) || decide (high ≤ low)) = true := by
      simpa using Nat.le_total
    simpa using List.pairwise_mergeSort htrans htotal (codeBounds ++ set.bounds)
  have hmem : ∀ bound ∈ codeBounds ++ set.bounds,
      bound ∈ (codeBounds ++ set.bounds).mergeSort fun left right => decide (left ≤ right) :=
    fun bound hbound => List.mem_mergeSort.mpr hbound
  rw [ranges]
  cases hbounds : (codeBounds ++ set.bounds).mergeSort fun left right => decide (left ≤ right) with
  | nil =>
      rw [hbounds] at hmem
      exact absurd (hmem 0 (by simp [codeBounds])) List.not_mem_nil
  | cons first rest =>
      rw [hbounds] at hsorted hmem
      have hzero : first = 0 := by
        rcases List.mem_cons.mp (hmem 0 (by simp [codeBounds])) with heq | hrest
        · exact heq.symm
        · exact Nat.le_zero.mp ((List.pairwise_cons.mp hsorted).1 0 hrest)
      obtain ⟨hsep, hiff⟩ := set.rangesAmong_spec hsorted fun bound hbound => by
        rcases List.mem_cons.mp (hmem bound hbound) with rfl | hrest
        · exact .inl le_rfl
        · exact .inr hrest
      refine ⟨hsep, fun code => (hiff code).trans ⟨fun h => h.2.2, fun hholds => ?_⟩⟩
      have hlimit : 0x110000 ∈ rest := by
        simpa [hzero, codeBounds] using hmem 0x110000
      have hcode : code < 0x110000 := by
        have := hholds.1
        unfold Nat.isValidChar at this
        omega
      exact ⟨by omega, ⟨_, hlimit, hcode⟩, hholds⟩

/-! ## Equal characters -/

/-- The first range of separated ranges ends before the first code point that is missing. -/
theorem Separated.last_le (hleft : Separated ((first, last) :: left))
    {other : Nat} (hright : Separated ((first, other) :: right))
    (himp : ∀ code, InRanges ((first, last) :: left) code →
      InRanges ((first, other) :: right) code) :
    last ≤ other := by
  by_contra hlt
  obtain ⟨hle, -, -⟩ := separated_cons.mp hleft
  obtain ⟨hle', hafter, -⟩ := separated_cons.mp hright
  have hnext : InRanges ((first, last) :: left) (other + 1) :=
    inRanges_cons.mpr (.inl (by omega))
  rcases inRanges_cons.mp (himp _ hnext) with hin | ⟨range, hrange, hin⟩
  · omega
  · have := hafter range hrange
    omega

theorem Separated.first_le (hright : Separated ((first, last) :: right))
    (hcode : InRanges ((first, last) :: right) code) : first ≤ code := by
  obtain ⟨hle, hafter, -⟩ := separated_cons.mp hright
  rcases inRanges_cons.mp hcode with hin | ⟨range, hrange, hin⟩
  · exact hin.1
  · have := hafter range hrange
    omega

theorem Separated.inRanges_rest_iff (hsep : Separated ((first, last) :: ranges)) :
    InRanges ranges code ↔ last < code ∧ InRanges ((first, last) :: ranges) code := by
  obtain ⟨hle, hafter, -⟩ := separated_cons.mp hsep
  rw [inRanges_cons]
  constructor
  · rintro ⟨range, hrange, hin⟩
    have := hafter range hrange
    exact ⟨by omega, .inr ⟨range, hrange, hin⟩⟩
  · rintro ⟨hlt, hin | hin⟩
    · omega
    · exact hin

/-- Separated ranges are determined by the code points in them. -/
theorem Separated.ext (hleft : Separated left) (hright : Separated right)
    (hiff : ∀ code, InRanges left code ↔ InRanges right code) : left = right := by
  induction left generalizing right with
  | nil =>
      cases right with
      | nil => rfl
      | cons range rest =>
          have hrange := (separated_cons.mp hright).1
          exact absurd ((hiff range.1).mpr (inRanges_cons.mpr (.inl ⟨le_rfl, hrange⟩)))
            not_inRanges_nil
  | cons range rest ih =>
      obtain ⟨first, last⟩ := range
      obtain ⟨hle, -, hrest⟩ := separated_cons.mp hleft
      have hfirst : InRanges ((first, last) :: rest) first := inRanges_cons.mpr (.inl ⟨le_rfl, hle⟩)
      cases right with
      | nil => exact absurd ((hiff first).mp hfirst) not_inRanges_nil
      | cons other others =>
          obtain ⟨first', last'⟩ := other
          obtain ⟨hle', -, hrest'⟩ := separated_cons.mp hright
          have hfirst' : InRanges ((first', last') :: others) first' :=
            inRanges_cons.mpr (.inl ⟨le_rfl, hle'⟩)
          obtain rfl : first = first' := Nat.le_antisymm
            (hleft.first_le ((hiff _).mpr hfirst')) (hright.first_le ((hiff _).mp hfirst))
          obtain rfl : last = last' := Nat.le_antisymm
            (hleft.last_le hright fun code => (hiff code).mp)
            (hright.last_le hleft fun code => (hiff code).mpr)
          rw [ih hrest hrest' fun code => ?_]
          rw [hleft.inRanges_rest_iff, hright.inRanges_rest_iff, hiff]

/-- The normal form has the same characters. -/
theorem contains_normal (set : CharSet) (char : Char) :
    set.normal.contains char = set.contains char := by
  have hvalid : char.toNat.isValidChar := char.valid
  rw [Bool.eq_iff_iff, contains, contains, normal, holdsCode_ofRanges, (ranges_spec set).2]
  exact and_iff_right hvalid

/-- Two sets have the same normal form exactly if they have the same characters. -/
theorem normal_eq_normal_iff (set other : CharSet) :
    set.normal = other.normal ↔ ∀ char, set.contains char = other.contains char := by
  constructor
  · intro heq char
    rw [← contains_normal set, heq, contains_normal]
  · intro hchars
    have hranges : set.ranges = other.ranges := by
      refine (ranges_spec set).1.ext (ranges_spec other).1 fun code => ?_
      rw [(ranges_spec set).2, (ranges_spec other).2]
      refine and_congr_right fun hvalid => ?_
      have hchar := hchars (Char.ofNat code)
      rw [contains, contains, Char.toNat_ofNat, if_pos hvalid] at hchar
      rw [hchar]
    rw [normal, normal, hranges]

end AverageLinkage.CharSet
