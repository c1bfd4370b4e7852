import Mathlib
import AverageLinkage.Table.Packed
import AverageLinkage.Proofs.FirstFault

/-!
# Packed tables and rows agree

Rows that pass their check all have the width of the table.  So a stretch of that width in
the array of all values is a row again, and a place in the array belongs to one row and one
column.
-/

namespace AverageLinkage

/-- Behind all values of the rows before it, a row of a table of equal rows begins. -/
theorem drop_flatten_of_width {Value : Type} {rows : List (List Value)} {width row : Nat}
    (hwidth : ∀ entries ∈ rows, entries.length = width) (hrow : row < rows.length) :
    rows.flatten.drop (row * width) = rows[row] ++ (rows.drop (row + 1)).flatten := by
  have hlengths : rows.map List.length = List.replicate rows.length width :=
    List.map_eq_replicate_iff.mpr hwidth
  have hsum : ((rows.map List.length).take row).sum = row * width := by
    rw [hlengths, List.take_replicate, Nat.min_eq_left hrow.le, List.sum_replicate, smul_eq_mul]
  rw [← hsum, List.drop_sum_flatten, List.drop_eq_getElem_cons hrow, List.flatten_cons]

namespace DistanceTable

theorem length_of_checkRows {size row : Nat} {rows : List (List Float)} {done : Unit}
    (hcheck : checkRows size row rows = .ok done) : ∀ entries ∈ rows, entries.length = size := by
  induction rows generalizing row with
  | nil => simp
  | cons first rest ih =>
      obtain ⟨_, hfirst, hrest⟩ := bind_eq_ok_iff.mp hcheck
      intro entries hmem
      rcases List.mem_cons.mp hmem with rfl | hmem
      · exact PackedTable.length_of_checkRow hfirst
      · exact ih hrest entries hmem

end DistanceTable

namespace PackedTable

open DistanceTable (checkRows checkRow)

structure Packs (packed : PackedTable) (table : DistanceTable) : Prop where
  size_eq : packed.size = table.size
  values_eq : packed.values.toList = table.rows.flatten
  square : ∀ entries ∈ table.rows, entries.length = table.size

/-- Packing checks the rows as a table does, in the same order and with the same faults. -/
theorem packRows_eq (size row : Nat) (values : Array Float) (rows : List (List Float)) :
    packRows size row values rows =
      (checkRows size row rows).map fun _ => values ++ rows.flatten.toArray := by
  induction rows generalizing row values with
  | nil => simp [packRows, checkRows, Except.map]
  | cons entries rest ih =>
      rw [packRows, checkRows]
      cases checkRow size row entries with
      | error fault => rfl
      | ok done =>
          have hvalues : values ++ entries.toArray ++ rest.flatten.toArray =
              values ++ (entries :: rest).flatten.toArray := by simp
          rw [← hvalues]
          exact ih (row + 1) (values ++ entries.toArray)

theorem ofRows_of_packRows_error {rows : List (List Float)} {fault : DistanceTable.Fault}
    (hpack : packRows rows.length 0 #[] rows = .error fault) : ofRows rows = .error fault := by
  unfold ofRows
  split
  · next heq => exact congrArg _ (Except.error.inj (heq.symm.trans hpack))
  · next heq => cases hpack.symm.trans heq

theorem ofRows_of_packRows_ok {rows : List (List Float)} {values : Array Float}
    (hpack : packRows rows.length 0 #[] rows = .ok values) :
    ∃ packed, ofRows rows = .ok packed ∧ packed.size = rows.length ∧ packed.values = values := by
  unfold ofRows
  split
  · next heq => cases hpack.symm.trans heq
  · next heq => exact ⟨_, rfl, rfl, Except.ok.inj (heq.symm.trans hpack)⟩

/-- Rows are packed exactly if they form a table, and otherwise fail in the same way. -/
theorem ofRows_cases (rows : List (List Float)) :
    (∃ fault, ofRows rows = .error fault ∧ DistanceTable.ofRows rows = .error fault) ∨
      ∃ packed, ofRows rows = .ok packed ∧ DistanceTable.ofRows rows = .ok ⟨rows⟩ ∧
        packed.Packs ⟨rows⟩ := by
  have hpack := packRows_eq rows.length 0 #[] rows
  rw [DistanceTable.ofRows]
  cases hcheck : checkRows rows.length 0 rows with
  | error fault =>
      rw [hcheck] at hpack
      exact .inl ⟨fault, ofRows_of_packRows_error hpack, rfl⟩
  | ok done =>
      rw [hcheck] at hpack
      obtain ⟨packed, hpacked, hsize, hvalues⟩ := ofRows_of_packRows_ok hpack
      refine .inr ⟨packed, hpacked, rfl, hsize, ?_, DistanceTable.length_of_checkRows hcheck⟩
      simp [hvalues]

variable {packed : PackedTable} {table : DistanceTable}

/-- The stretches of a packed table are the rows. -/
theorem Packs.chunks_eq (hpacks : packed.Packs table) :
    chunks (max packed.size 1) packed.values = table.rows := by
  have hlength : packed.size = table.rows.length := hpacks.size_eq
  rw [chunks, packed.size_values]
  rcases Nat.eq_zero_or_pos packed.size with hzero | hpos
  · have hrows : table.rows = [] := List.eq_nil_of_length_eq_zero (hlength.symm.trans hzero)
    simp [hzero, hrows]
  · rw [Nat.max_eq_left hpos, Nat.mul_div_cancel _ hpos]
    apply List.ext_getElem
    · simp [hlength]
    · intro row _ hrow
      have hentries : table.rows[row].length = packed.size := by
        rw [hpacks.size_eq]
        exact hpacks.square _ (List.getElem_mem hrow)
      rw [List.getElem_map, List.getElem_range, Array.toList_extract, hpacks.values_eq,
        List.extract_eq_take_drop, Nat.add_sub_cancel_left, hpacks.size_eq,
        drop_flatten_of_width hpacks.square hrow, List.take_left']
      rw [hentries, hpacks.size_eq]

theorem Packs.pairs_eq (hpacks : packed.Packs table) : packed.pairs = table.pairs := by
  rw [pairs, hpacks.chunks_eq, DistanceTable.pairs]

/-- The graph of a table does not depend on how the table is kept. -/
theorem Packs.packedGraph_eq [Exponential] (hpacks : packed.Packs table) (kernel : Kernel) :
    kernel.packedGraph packed = kernel.graph table := by
  rw [Kernel.packedGraph, Kernel.graph, hpacks.pairs_eq, hpacks.size_eq]

/-- Rows give the same graph in one array as row by row, or the same fault. -/
theorem map_packedGraph [Exponential] (rows : List (List Float)) (kernel : Kernel) :
    (ofRows rows).map kernel.packedGraph = (DistanceTable.ofRows rows).map kernel.graph := by
  obtain ⟨fault, hpacked, htable⟩ | ⟨packed, hpacked, htable, hpacks⟩ := ofRows_cases rows
  · rw [hpacked, htable]
    rfl
  · rw [hpacked, htable, Except.map, Except.map, hpacks.packedGraph_eq]

/-- A place in the array holds the value of its row and column. -/
theorem Packs.distance?_eq (hpacks : packed.Packs table) (row column : Nat) :
    packed.distance? row column = table.distance? row column := by
  rw [distance?, DistanceTable.distance?, hpacks.size_eq]
  by_cases hrow : row < table.rows.length
  · have hentries : table.rows[row].length = table.size :=
      hpacks.square _ (List.getElem_mem hrow)
    have hinside : ¬table.size ≤ row := hrow.not_ge
    rw [List.getElem?_eq_getElem hrow]
    change _ = table.rows[row][column]?
    by_cases hcolumn : column < table.size
    · rw [if_neg (not_or.mpr ⟨hinside, hcolumn.not_ge⟩), ← Array.getElem?_toList,
        hpacks.values_eq, ← List.getElem?_drop, drop_flatten_of_width hpacks.square hrow,
        List.getElem?_append_left (by omega)]
    · rw [if_pos (.inr (Nat.le_of_not_lt hcolumn)), List.getElem?_eq_none (by omega)]
  · have houtside : table.size ≤ row := Nat.le_of_not_lt hrow
    rw [if_pos (.inl houtside), List.getElem?_eq_none houtside]
    rfl

end PackedTable

end AverageLinkage
