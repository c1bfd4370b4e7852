import Mathlib
import AverageLinkage.Proofs.JoinedSlots

/-!
# Runs of slots

Sorting the entries of a cluster by the other ends of their edges brings those of a bundle
together, in the order of their slots.  So each run of the sorted entries is one bundle, and
joining it in place is one pass over the slots.
-/

namespace AverageLinkage.Arena

/-! ## Sorting entries -/

theorem lt_of_mem_dropWhile {entries : List (Nat × Nat)} {key : Nat}
    (hsorted : entries.Pairwise fun left right => left.1 ≤ right.1)
    (hlow : ∀ entry ∈ entries, key ≤ entry.1) :
    ∀ entry ∈ entries.dropWhile (·.1 == key), key < entry.1 := by
  induction entries with
  | nil => simp
  | cons first rest ih =>
      rw [List.pairwise_cons] at hsorted
      rw [List.forall_mem_cons] at hlow
      rw [List.dropWhile_cons]
      split
      · exact ih hsorted.2 hlow.2
      · next hne =>
          have hfirst : key < first.1 := by
            have hne : first.1 ≠ key := by simpa using hne
            omega
          rw [List.forall_mem_cons]
          refine ⟨hfirst, ?_⟩
          intro entry hentry
          exact hfirst.trans_le (hsorted.1 entry hentry)

section

variable {same others : List (Nat × Nat)} {key : Nat} (hsame : ∀ entry ∈ same, entry.1 = key)
  (hothers : ∀ entry ∈ others, key < entry.1)

include hsame hothers

theorem splitBy_append_of_lt (hne : same ≠ []) :
    (same ++ others).splitBy (fun left right => left.1 == right.1) =
      same :: others.splitBy fun left right => left.1 == right.1 := by
  have hrun : same.splitBy (fun left right => left.1 == right.1) = [same] := by
    apply List.splitBy_of_isChain hne
    apply List.Pairwise.isChain
    apply List.pairwise_of_forall_mem_list
    intro left hleft right hright
    simp [hsame left hleft, hsame right hright]
  rw [List.splitBy_append, hrun, List.singleton_append]
  intro left hleft right hright
  have heq := hsame left (List.mem_of_mem_getLast? hleft)
  have hlt := hothers right (List.mem_of_mem_head? hright)
  simp only [beq_eq_false_iff_ne]
  omega

theorem filter_append_eq_left : (same ++ others).filter (·.1 == key) = same := by
  have hleft : same.filter (·.1 == key) = same := by
    simpa [List.filter_eq_self] using hsame
  have hright : others.filter (·.1 == key) = [] := by
    rw [List.filter_eq_nil_iff]
    intro entry hentry
    simpa using (hothers entry hentry).ne'
  rw [List.filter_append, hleft, hright, List.append_nil]

omit hothers in
theorem filter_append_eq_right {other : Nat} (hother : key < other) :
    (same ++ others).filter (·.1 == other) = others.filter (·.1 == other) := by
  have hleft : same.filter (·.1 == other) = [] := by
    rw [List.filter_eq_nil_iff]
    intro entry hentry
    simpa [hsame entry hentry] using hother.ne
  rw [List.filter_append, hleft, List.nil_append]

end

/-- Entries that are sorted by their first components split into those of each component, one
component after another. -/
theorem exists_keys_splitBy {entries : List (Nat × Nat)}
    (hsorted : entries.Pairwise fun left right => left.1 ≤ right.1) :
    ∃ keys : List Nat, keys.Nodup ∧ (∀ key, key ∈ keys ↔ ∃ entry ∈ entries, entry.1 = key) ∧
      entries.splitBy (fun left right => left.1 == right.1) =
        keys.map fun key => entries.filter (·.1 == key) := by
  induction hlength : entries.length using Nat.strong_induction_on generalizing entries with
  | _ length ih =>
      cases entries with
      | nil => exact ⟨[], List.nodup_nil, by simp, rfl⟩
      | cons first rest =>
          -- the entries with the lowest component come before all others
          obtain ⟨same, others, hsplit, hsame, hothers⟩ : ∃ same others,
              first :: rest = same ++ others ∧ (∀ entry ∈ same, entry.1 = first.1) ∧
                ∀ entry ∈ others, first.1 < entry.1 := by
            refine ⟨_, _, List.takeWhile_append_dropWhile.symm, ?_, lt_of_mem_dropWhile hsorted ?_⟩
            · intro entry hentry
              simpa using List.mem_takeWhile_imp hentry
            · simpa using (List.pairwise_cons.mp hsorted).1
          have hfirst : first ∈ same := by
            have hmem : first ∈ same ++ others := hsplit ▸ List.mem_cons_self
            refine (List.mem_append.mp hmem).resolve_right fun hother => ?_
            exact (hothers first hother).ne rfl
          have hne := List.ne_nil_of_mem hfirst
          rw [hsplit] at hsorted hlength ⊢
          have hshorter : others.length < length := by
            have hpositive := List.length_pos_of_mem hfirst
            rw [List.length_append] at hlength
            omega
          obtain ⟨keys, hnodup, hkeys, hruns⟩ :=
            ih _ hshorter (List.pairwise_append.mp hsorted).2.1 rfl
          have habove : ∀ key ∈ keys, first.1 < key := by
            intro key hkey
            obtain ⟨entry, hentry, rfl⟩ := (hkeys key).mp hkey
            exact hothers entry hentry
          refine ⟨first.1 :: keys, ?_, ?_, ?_⟩
          · exact List.nodup_cons.mpr ⟨fun hmem => (habove _ hmem).ne rfl, hnodup⟩
          · intro key
            simp only [List.mem_cons, hkeys, List.mem_append, or_and_right, exists_or]
            refine or_congr_left ⟨?_, ?_⟩
            · rintro rfl
              exact ⟨first, hfirst, rfl⟩
            · rintro ⟨entry, hentry, rfl⟩
              exact hsame entry hentry
          · rw [splitBy_append_of_lt hsame hothers hne, hruns, List.map_cons,
              filter_append_eq_left hsame hothers]
            congr 1
            apply List.map_congr_left
            intro key hkey
            exact (filter_append_eq_right hsame (habove key hkey)).symm

theorem pairwise_precedes (entries : List (Nat × Nat)) :
    (entries.mergeSort precedes).Pairwise fun left right => precedes left right = true := by
  apply List.pairwise_mergeSort
  · intro left middle right
    simp only [precedes, Bool.or_eq_true, Bool.and_eq_true, decide_eq_true_eq, beq_iff_eq]
    omega
  · intro left right
    simp only [precedes, Bool.or_eq_true, Bool.and_eq_true, decide_eq_true_eq, beq_iff_eq]
    omega

/-- Sorting keeps the order of entries with the same first component. -/
theorem filter_mergeSort {entries : List (Nat × Nat)}
    (hslots : entries.Pairwise fun left right => left.2 < right.2) (key : Nat) :
    (entries.mergeSort precedes).filter (·.1 == key) = entries.filter (·.1 == key) := by
  have hantisymm : ∀ left right : Nat × Nat, precedes left right = true →
      precedes right left = true → left = right := by
    intro left right hle hge
    simp only [precedes, Bool.or_eq_true, Bool.and_eq_true, decide_eq_true_eq, beq_iff_eq]
      at hle hge
    exact Prod.ext (by omega) (by omega)
  apply List.Perm.eq_of_pairwise (fun left right _ _ => hantisymm left right)
  · exact (pairwise_precedes entries).filter _
  · apply (hslots.filter _).imp_of_mem
    intro left right hleft hright hlt
    simp only [List.mem_filter, beq_iff_eq] at hleft hright
    simp [precedes, hleft.2, hright.2, hlt.le]
  · exact (List.mergeSort_perm entries precedes).filter _

/-- The runs are the entries of each first component. -/
theorem exists_keys_runs {entries : List (Nat × Nat)}
    (hslots : entries.Pairwise fun left right => left.2 < right.2) :
    ∃ keys : List Nat, keys.Nodup ∧ (∀ key, key ∈ keys ↔ ∃ entry ∈ entries, entry.1 = key) ∧
      runs entries = keys.map fun key => entries.filter (·.1 == key) := by
  have hsorted : (entries.mergeSort precedes).Pairwise fun left right => left.1 ≤ right.1 := by
    apply (pairwise_precedes entries).imp
    intro left right hprecedes
    simp only [precedes, Bool.or_eq_true, Bool.and_eq_true, decide_eq_true_eq, beq_iff_eq]
      at hprecedes
    omega
  obtain ⟨keys, hnodup, hkeys, hruns⟩ := exists_keys_splitBy hsorted
  refine ⟨keys, hnodup, ?_, ?_⟩
  · simpa only [(List.mergeSort_perm entries precedes).mem_iff] using hkeys
  · rw [runs, hruns]
    simp only [filter_mergeSort hslots]

/-! ## Entries and slots -/

variable {W : Type}

/-- The numbers of the slots with chosen edges; the first slot has number `offset`. -/
def positions (chosen : Edge W → Bool) (offset : Nat) (slots : List (Option (Edge W))) :
    List Nat :=
  (slots.zipIdx offset).filterMap fun (slot, index) => if slot.any chosen then some index else none

theorem positions_cons (chosen : Edge W → Bool) (offset : Nat) (slot : Option (Edge W))
    (rest : List (Option (Edge W))) :
    positions chosen offset (slot :: rest) =
      if slot.any chosen then offset :: positions chosen (offset + 1) rest
      else positions chosen (offset + 1) rest := by
  rw [positions, List.zipIdx_cons, List.filterMap_cons]
  split <;> simp_all [positions]

/-- The edges with one side at a cluster and the other one at another cluster. -/
def spans (side : Edge.Side) (node other : Nat) (edge : Edge W) : Bool :=
  edge.near side == node && edge.far side == other

theorem parallel_iff {edge other : Edge W} (side : Edge.Side) :
    edge.parallel other = true ↔
      edge.near side = other.near side ∧ edge.far side = other.far side := by
  cases side <;> simp [Edge.parallel, Edge.near, Edge.far, and_comm]

/-- The entries at a cluster with the same other end are the slots of one bundle. -/
theorem filter_heldAt (side : Edge.Side) (node other : Nat) (slots : List (Option (Edge W))) :
    (heldAt side node slots.toArray).filter (·.1 == other) =
      (positions (spans side node other) 0 slots).map fun index => (other, index) := by
  rw [heldAt, positions, List.filter_filterMap, List.map_filterMap]
  apply List.filterMap_congr
  rintro ⟨slot, index⟩ _
  cases slot with
  | none => rfl
  | some edge =>
      by_cases hnear : edge.near side = node
      · by_cases hfar : edge.far side = other
        · simp [spans, hnear, hfar]
        · simp [spans, hnear, hfar]
      · simp [spans, hnear]

theorem pairwise_heldAt (side : Edge.Side) (node : Nat) (slots : Array (Option (Edge W))) :
    (heldAt side node slots).Pairwise fun left right => left.2 < right.2 := by
  have hindices : slots.toList.zipIdx.Pairwise fun left right => left.2 < right.2 := by
    rw [← List.pairwise_map, List.zipIdx_map_snd]
    exact List.pairwise_lt_range'
  rw [heldAt, List.pairwise_filterMap]
  apply hindices.imp
  intro left right hlt entry hentry next hnext
  simp only [Option.map_eq_some_iff] at hentry hnext
  obtain ⟨_, _, rfl⟩ := hentry
  obtain ⟨_, _, rfl⟩ := hnext
  exact hlt

theorem exists_mem_heldAt {side : Edge.Side} {node : Nat} {slots : List (Option (Edge W))}
    {edge : Edge W} (hnear : edge.near side = node) (hedge : some edge ∈ slots) :
    ∃ entry ∈ heldAt side node slots.toArray, entry.1 = edge.far side := by
  obtain ⟨index, hindex⟩ := List.mem_iff_getElem?.mp hedge
  refine ⟨(edge.far side, index), ?_, rfl⟩
  rw [heldAt, List.mem_filterMap]
  exact ⟨(some edge, index), List.mk_mem_zipIdx_iff_getElem?.mpr hindex, by simp [hnear]⟩

section

variable [Weight W]

omit [Weight W] in
theorem write?_toArray {entries : List (Option (Edge W))} {index : Nat}
    (hindex : index < entries.length) (slot : Option (Edge W)) :
    DisjointSets.write? entries.toArray index slot = some (entries.set index slot).toArray := by
  simp [DisjointSets.write?, hindex]

theorem absorb?_append (before middle after : List (Option (Edge W))) (kept removed : Edge W)
    (other : Nat) :
    absorb? before.length (before ++ some kept :: (middle ++ some removed :: after)).toArray
        (other, before.length + 1 + middle.length) =
      some (before ++ some { kept with weight := kept.weight + removed.weight } ::
        (middle ++ none :: after)).toArray := by
  have hindex : before.length + 1 + middle.length = (before ++ some kept :: middle).length := by
    simp
    omega
  have hread : (before ++ some kept :: (middle ++ some removed :: after))[
      before.length + 1 + middle.length]? = some (some removed) := by
    rw [← List.cons_append, ← List.append_assoc, hindex]
    simp
  have hempty : (before ++ some kept :: (middle ++ some removed :: after)).set
      (before.length + 1 + middle.length) none =
        before ++ some kept :: (middle ++ none :: after) := by
    rw [← List.cons_append, ← List.append_assoc, hindex, List.set_append_right _ _ le_rfl]
    simp
  have hinside : before.length + 1 + middle.length <
      (before ++ some kept :: (middle ++ some removed :: after)).length := by
    simp
    omega
  simp only [absorb?, List.getElem?_toArray, hread, Option.bind_eq_bind, Option.bind_some,
    write?_toArray hinside, hempty]
  simp [write?_toArray]

/-- The choice of a single bundle. -/
structure OneBundle (chosen : Edge W → Bool) : Prop where
  ofBundles : OfBundles chosen
  parallel : ∀ edge other : Edge W, chosen edge = true → chosen other = true →
    edge.parallel other = true

omit [Weight W] in
theorem oneBundle_spans (side : Edge.Side) (node other : Nat) :
    OneBundle (spans side node other : Edge W → Bool) := by
  constructor
  · intro edge next hparallel
    rw [parallel_iff side] at hparallel
    rw [spans, spans, hparallel.1, hparallel.2]
  · intro edge next hedge hnext
    simp only [spans, Bool.and_eq_true, beq_iff_eq] at hedge hnext
    rw [parallel_iff side, hedge.1, hedge.2, hnext.1, hnext.2]
    exact ⟨rfl, rfl⟩

/-- Once the first edge of a bundle has been met, the slots of the others are emptied one
after another, and their weights are added to it. -/
theorem OneBundle.foldlM_absorb? {chosen : Edge W → Bool} (hone : OneBundle chosen) (other : Nat)
    (before middle slots : List (Option (Edge W))) {kept : Edge W} (hkept : chosen kept = true) :
    ((positions chosen (before.length + 1 + middle.length) slots).map
        fun index => (other, index)).foldlM (absorb? before.length)
        (before ++ some kept :: (middle ++ slots)).toArray =
      some (before ++ some (gather kept slots.reduceOption) ::
        (middle ++ joinSlots chosen [kept] slots)).toArray := by
  induction slots generalizing middle kept with
  | nil => simp [positions, gather, joinSlots]
  | cons slot rest ih =>
      rw [positions_cons]
      by_cases hslot : slot.any chosen = true
      · obtain ⟨edge, rfl, hedge⟩ := (Option.any_eq_true _ _).mp hslot
        have hparallel := hone.parallel kept edge hkept hedge
        let next : Edge W := { kept with weight := kept.weight + edge.weight }
        have hnext : chosen next = true := by
          rw [hone.ofBundles next edge hparallel, hedge]
        have hoffset : before.length + 1 + middle.length + 1 =
            before.length + 1 + (middle ++ [none] : List (Option (Edge W))).length := by
          simp
          omega
        have hmet : [kept].any edge.parallel = true := by
          simp [hone.parallel edge kept hedge hkept]
        have hsame : ∀ other : Edge W, chosen other = true →
            [edge, kept].any other.parallel = [next].any other.parallel := by
          intro other hother
          simp [hone.parallel other _ hother hedge, hone.parallel other _ hother hnext]
        have hrest := ih (middle ++ [none]) hnext
        rw [if_pos hslot, List.map_cons, List.foldlM_cons, absorb?_append, Option.bind_eq_bind,
          Option.bind_some, List.append_cons middle none rest, hoffset, hrest,
          List.reduceOption_cons_of_some, gather_cons_of_parallel hparallel, joinSlots,
          if_pos hedge, if_pos hmet, joinSlots_congr_before hsame, ← List.append_cons]
      · have hoffset : before.length + 1 + middle.length + 1 =
            before.length + 1 + (middle ++ [slot]).length := by
          simp
          omega
        have hgather : gather kept (slot :: rest).reduceOption = gather kept rest.reduceOption := by
          cases slot with
          | none => rfl
          | some edge =>
              apply gather_congr
              rw [List.reduceOption_cons_of_some, List.filter_cons_of_neg]
              simp [hone.ofBundles.parallel_eq_false hkept hslot]
        rw [if_neg hslot, List.append_cons middle slot rest, hoffset, ih (middle ++ [slot]) hkept,
          hgather, joinSlots_cons_of_not hone.ofBundles hslot, ← List.append_cons]

/-- Joining the run of one bundle in place is one pass over the slots. -/
theorem OneBundle.joinRun?_positions {chosen : Edge W → Bool} (hone : OneBundle chosen)
    (other : Nat) (before slots : List (Option (Edge W))) :
    joinRun? (before ++ slots).toArray
        ((positions chosen before.length slots).map fun index => (other, index)) =
      some (before ++ joinSlots chosen [] slots).toArray := by
  induction slots generalizing before with
  | nil => rfl
  | cons slot rest ih =>
      have hlength : before.length + 1 = (before ++ [slot]).length := by simp
      rw [positions_cons]
      by_cases hslot : slot.any chosen = true
      · obtain ⟨edge, rfl, hedge⟩ := (Option.any_eq_true _ _).mp hslot
        rw [if_pos hslot, List.map_cons, joinRun?, joinSlots, if_pos hedge,
          if_neg (by simp)]
        exact hone.foldlM_absorb? other before [] rest hedge
      · rw [if_neg hslot, hlength, List.append_cons, ih (before ++ [slot]), ← List.append_cons,
          joinSlots_cons_of_not hone.ofBundles hslot]

/-! ## All runs of a cluster -/

/-- A pass over some bundles leaves the slots of the others where they are. -/
theorem positions_joinSlots {chosen picked : Edge W → Bool} (hbundles : OfBundles chosen)
    (hapart : ∀ edge : Edge W, chosen edge = true → picked edge = false) (offset : Nat)
    (before : List (Edge W)) (slots : List (Option (Edge W))) :
    positions picked offset (joinSlots chosen before slots) = positions picked offset slots := by
  induction slots generalizing offset before with
  | nil => rfl
  | cons slot rest ih =>
      cases slot with
      | none => rw [joinSlots, positions_cons, positions_cons, ih]
      | some edge =>
          rw [joinSlots, positions_cons, positions_cons, ih]
          by_cases hchosen : chosen edge = true
          · have hgather : chosen (gather edge rest.reduceOption) = true := by
              rw [← hbundles edge _ (by simp [Edge.parallel, gather]), hchosen]
            rw [if_pos hchosen]
            split <;> simp [hapart edge hchosen, hapart _ hgather]
          · rw [if_neg hchosen]

/-- The edges with one side at a cluster and the other one at some of the clusters. -/
def spansAny (side : Edge.Side) (node : Nat) (others : List Nat) (edge : Edge W) : Bool :=
  edge.near side == node && others.contains (edge.far side)

omit [Weight W] in
theorem ofBundles_spansAny (side : Edge.Side) (node : Nat) (others : List Nat) :
    OfBundles (spansAny side node others : Edge W → Bool) := by
  intro edge other hparallel
  rw [parallel_iff side] at hparallel
  rw [spansAny, spansAny, hparallel.1, hparallel.2]

/-- The runs are joined one after another. -/
theorem foldlM_joinRun? (side : Edge.Side) (node : Nat) (slots : List (Option (Edge W)))
    {keys : List Nat} (done : List Nat) (hnodup : keys.Nodup)
    (hfresh : ∀ key ∈ keys, key ∉ done) :
    (keys.map fun key => (positions (spans side node key) 0 slots).map
        fun index => (key, index)).foldlM joinRun?
        (joinSlots (spansAny side node done) [] slots).toArray =
      some (joinSlots (spansAny side node (keys ++ done)) [] slots).toArray := by
  induction keys generalizing done with
  | nil => rfl
  | cons key keys ih =>
      rw [List.nodup_cons] at hnodup
      rw [List.forall_mem_cons] at hfresh
      have hapart : ∀ edge : Edge W, spansAny side node done edge = true →
          spans side node key edge = false := by
        intro edge hedge
        simp only [spansAny, Bool.and_eq_true, beq_iff_eq, List.contains_iff_mem] at hedge
        simp only [spans, Bool.and_eq_false_iff, beq_eq_false_iff_ne]
        right
        rintro rfl
        exact hfresh.1 hedge.2
      have hpasses : (fun edge : Edge W =>
          spansAny side node done edge || spans side node key edge) =
            spansAny side node (key :: done) := by
        funext edge
        rw [spansAny, spans, spansAny, List.contains_cons, ← Bool.and_or_distrib_left, Bool.or_comm]
      have hjoin := (oneBundle_spans side node key).joinRun?_positions key []
        (joinSlots (spansAny side node done) [] slots)
      rw [List.nil_append, List.nil_append, List.length_nil,
        positions_joinSlots (ofBundles_spansAny side node done) hapart,
        joinSlots_joinSlots (ofBundles_spansAny side node done) (fun _ => rfl), hpasses] at hjoin
      have hnext : ∀ other ∈ keys, other ∉ key :: done := by
        intro other hother
        rw [List.mem_cons, not_or]
        refine ⟨?_, hfresh.2 other hother⟩
        rintro rfl
        exact hnodup.1 hother
      have horder : (spansAny side node (keys ++ key :: done) : Edge W → Bool) =
          spansAny side node (key :: keys ++ done) := by
        funext edge
        simp [spansAny, Bool.or_left_comm]
      rw [List.map_cons, List.foldlM_cons, hjoin, Option.bind_eq_bind, Option.bind_some,
        ih (key :: done) hnodup.2 hnext, horder]

/-- Joining all runs in place is one pass over the slots. -/
theorem joinAt?_eq_joinSlots (side : Edge.Side) (node : Nat) (slots : List (Option (Edge W))) :
    joinAt? side node slots.toArray =
      some (joinSlots (fun edge => edge.near side == node) [] slots).toArray := by
  obtain ⟨keys, hnodup, hkeys, hruns⟩ := exists_keys_runs (pairwise_heldAt side node slots.toArray)
  have hall : ∀ edge ∈ slots.reduceOption,
      spansAny side node (keys ++ []) edge = (edge.near side == node) := by
    intro edge hedge
    by_cases hnear : edge.near side = node
    · have hmem : edge.far side ∈ keys :=
        (hkeys _).mpr (exists_mem_heldAt hnear (List.reduceOption_mem_iff.mp hedge))
      simp [spansAny, hnear, hmem]
    · simp [spansAny, hnear]
  have hnone : joinSlots (spansAny side node []) [] slots = slots := by
    have hempty : (spansAny side node [] : Edge W → Bool) = fun _ => false := by
      funext edge
      simp [spansAny]
    rw [hempty, joinSlots_none]
  have hfold := foldlM_joinRun? side node slots [] hnodup (by simp)
  rw [hnone, joinSlots_congr hall] at hfold
  simp only [← filter_heldAt, ← hruns] at hfold
  exact hfold

end

end AverageLinkage.Arena
