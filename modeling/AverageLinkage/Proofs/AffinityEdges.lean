import Mathlib
import AverageLinkage.Proofs.DenseLinkage
import AverageLinkage.Proofs.PackedTable

/-!
# Edges of affinity graphs

The affinity graph of a table lists each pair of items that are near enough once per
direction, in the order of the later item and then of the earlier one.  Of the values of a
table only those below the diagonal have a part in this: neither the check of the rows nor
the graph depends on the others.
-/

namespace AverageLinkage

/-- Where no edge is listed twice, no two edges have the same ends. -/
theorem Clusters.Simple.nodup_ends {edges : List (Edge Float)} (hsimple : Simple edges) :
    (edges.map fun edge => (edge.source, edge.target)).Nodup := by
  rw [List.nodup_iff_count_le_one]
  rintro ⟨source, target⟩
  have hlength := hsimple source target
  rw [weightsBetween, List.length_map, ← List.countP_eq_length_filter] at hlength
  rwa [List.count, List.countP_map]

namespace DistanceTable

/-- The value in a row and column.  It is of no meaning outside of the rows. -/
def valueAt (rows : List (List Float)) (row column : Nat) : Float :=
  (rows.getD row []).getD column 0

theorem ofRows_eq_ok_iff {rows : List (List Float)} {table : DistanceTable} :
    ofRows rows = .ok table ↔ checkRows rows.length 0 rows = .ok () ∧ table = ⟨rows⟩ := by
  rw [ofRows, bind_eq_ok_iff]
  constructor
  · rintro ⟨_, hcheck, htable⟩
    exact ⟨hcheck, (Except.ok.inj htable).symm⟩
  · rintro ⟨hcheck, rfl⟩
    exact ⟨(), hcheck, rfl⟩

/-! ## The triangle below the diagonal -/

section Triangle

variable {Item : Type}

theorem zipIdx_eq_map_range (items : List Item) (fallback : Item) :
    items.zipIdx = (List.range items.length).map fun index =>
      (items.getD index fallback, index) := by
  apply List.ext_getElem
  · simp
  · intro index hleft hright
    simp at hleft
    simp [hleft]

variable {rows : List (List Float)}

/-- The pairs of a row by the columns left of the diagonal. -/
theorem rowPairs_eq {row : Nat} {values : List Float} (hrow : row ≤ values.length) :
    rowPairs row values =
      (List.range row).map fun column => (row, column, values.getD column 0) := by
  rw [rowPairs, zipIdx_eq_map_range _ 0, List.map_map, List.length_take, Nat.min_eq_left hrow]
  apply List.map_congr_left
  intro column hcolumn
  have hcolumn : column < row := List.mem_range.mp hcolumn
  simp [List.getElem?_take, hcolumn]

/-- The entries below the diagonal of a square table, by rows and columns. -/
theorem pairs_eq (hsquare : ∀ values ∈ rows, values.length = rows.length) :
    pairs ⟨rows⟩ = (List.range rows.length).flatMap fun row =>
      (List.range row).map fun column => (row, column, valueAt rows row column) := by
  rw [pairs, zipIdx_eq_map_range rows [], List.flatMap_map]
  apply List.flatMap_congr
  intro row hrow
  have hrow : row < rows.length := List.mem_range.mp hrow
  have hvalues : (rows.getD row []).length = rows.length := by
    rw [List.getD_eq_getElem _ _ hrow]
    exact hsquare _ (List.getElem_mem hrow)
  exact rowPairs_eq (hvalues.symm ▸ hrow.le)

theorem getElem?_eq_valueAt (hsquare : ∀ values ∈ rows, values.length = rows.length)
    {row column : Nat} (hrow : row < rows.length) (hcolumn : column < rows.length) :
    (rows[row]?.bind fun values => values[column]?) = some (valueAt rows row column) := by
  have hvalues : column < rows[row].length := by
    rwa [hsquare _ (List.getElem_mem hrow)]
  simp [valueAt, hrow, hvalues]

end Triangle

end DistanceTable

namespace Kernel

open DistanceTable (valueAt)

/-- The edge from the earlier to the later one of two items, if their distance is finite and
within the threshold. -/
def nearPair? [Exponential] (kernel : Kernel) (rows : List (List Float)) (row column : Nat) :
    Option (Edge Float) :=
  let distance := valueAt rows row column
  if distance.isFinite = true ∧ distance ≤ kernel.maxDistance then
    some { source := column, target := row, weight := kernel.affinity distance }
  else none

/-- The pairs of items that are near enough, in the order of the later item and then of the
earlier one. -/
def nearPairs [Exponential] (kernel : Kernel) (rows : List (List Float)) : List (Edge Float) :=
  (List.range rows.length).flatMap fun row =>
    (List.range row).filterMap fun column => kernel.nearPair? rows row column

section NearPairs

variable [Exponential] {kernel : Kernel} {rows : List (List Float)} {row column : Nat}
  {pair : Edge Float}

theorem ends_of_nearPair? (hpair : kernel.nearPair? rows row column = some pair) :
    pair.source = column ∧ pair.target = row := by
  rw [nearPair?] at hpair
  split at hpair
  · obtain rfl := Option.some.inj hpair
    exact ⟨rfl, rfl⟩
  · contradiction

/-- The two edges of a pair are those of `nearPair?`, one in each direction. -/
theorem pairEdges_eq (kernel : Kernel) (rows : List (List Float)) (row column : Nat) :
    kernel.pairEdges (row, column, valueAt rows row column) =
      (kernel.nearPair? rows row column).toList.flatMap fun pair => [pair, pair.reverse] := by
  rw [pairEdges, accepts, nearPair?]
  simp only [Bool.and_eq_true, decide_eq_true_eq]
  split <;> rfl

/-- The edges of an affinity graph are the near pairs, each followed by its reverse. -/
theorem edges_graph_eq (hsquare : ∀ values ∈ rows, values.length = rows.length) :
    (kernel.graph ⟨rows⟩).edges =
      (kernel.nearPairs rows).flatMap fun pair => [pair, pair.reverse] := by
  rw [graph, nearPairs, DistanceTable.pairs_eq hsquare]
  simp only [List.flatMap_assoc, List.flatMap_map, List.filterMap_eq_flatMap_toList, pairEdges_eq]

theorem ends_of_mem_nearPairs (hmem : pair ∈ kernel.nearPairs rows) :
    pair.source < pair.target ∧ pair.target < rows.length := by
  simp only [nearPairs, List.mem_flatMap, List.mem_filterMap, List.mem_range] at hmem
  obtain ⟨row, hrow, column, hcolumn, hpair⟩ := hmem
  obtain ⟨rfl, rfl⟩ := ends_of_nearPair? hpair
  exact ⟨hcolumn, hrow⟩

/-- The pairs are listed in increasing order, so none of them is listed twice. -/
theorem pairwise_nearPairs (kernel : Kernel) (rows : List (List Float)) :
    (kernel.nearPairs rows).Pairwise fun pair other =>
      pair.target < other.target ∨ pair.target = other.target ∧ pair.source < other.source := by
  rw [nearPairs, List.pairwise_flatMap]
  constructor
  · intro row _
    rw [List.pairwise_filterMap]
    refine List.pairwise_lt_range.imp ?_
    intro column later hlt pair hpair other hother
    obtain ⟨rfl, rfl⟩ := ends_of_nearPair? hpair
    obtain ⟨rfl, htarget⟩ := ends_of_nearPair? hother
    exact .inr ⟨htarget.symm, hlt⟩
  · refine List.pairwise_lt_range.imp ?_
    intro row later hlt pair hpair other hother
    obtain ⟨_, -, hpair⟩ := List.mem_filterMap.mp hpair
    obtain ⟨_, -, hother⟩ := List.mem_filterMap.mp hother
    obtain ⟨-, rfl⟩ := ends_of_nearPair? hpair
    obtain ⟨-, rfl⟩ := ends_of_nearPair? hother
    exact .inl hlt

/-- An affinity graph lists the near pairs. -/
theorem graph_lists (hsquare : ∀ values ∈ rows, values.length = rows.length) :
    (kernel.graph ⟨rows⟩).Lists (kernel.nearPairs rows) where
  proper pair hpair := by
    obtain ⟨hlt, htarget⟩ := ends_of_mem_nearPairs hpair
    exact ⟨hlt.ne, hlt.trans htarget, htarget⟩
  distinct := by
    refine (pairwise_nearPairs kernel rows).imp_of_mem ?_
    intro pair other hpair hother horder
    have hpair := (ends_of_mem_nearPairs hpair).1
    have hother := (ends_of_mem_nearPairs hother).1
    simp only [Edge.joins, Bool.or_eq_false_iff, Bool.and_eq_false_iff, beq_eq_false_iff_ne]
    omega
  edges_perm := by rw [edges_graph_eq hsquare]

end NearPairs

/-- The graph of accepted rows, for every kernel and every exponential: one node per row, and for
each near pair, in order, the edge from the earlier item to the later one and its reverse.  So it
has two edges per near pair, between different nodes, none of them twice and each with its
reverse.  The graph of the table in one array is the same. -/
theorem graph_of_ofRows [Exponential] {rows : List (List Float)} {table : DistanceTable}
    (hrows : DistanceTable.ofRows rows = .ok table) (kernel : Kernel) :
    (∀ row < rows.length, ∀ column < rows.length,
        (rows[row]?.bind fun values => values[column]?) = some (valueAt rows row column)) ∧
      (kernel.graph table).nodeCount = rows.length ∧
      (kernel.graph table).edges =
        (kernel.nearPairs rows).flatMap (fun pair => [pair, pair.reverse]) ∧
      (kernel.graph table).edgeCount = 2 * (kernel.nearPairs rows).length ∧
      (∀ edge ∈ (kernel.graph table).edges, edge.source < rows.length ∧
        edge.target < rows.length ∧ edge.source ≠ edge.target ∧
        edge.reverse ∈ (kernel.graph table).edges) ∧
      ((kernel.graph table).edges.map fun edge => (edge.source, edge.target)).Nodup ∧
      (PackedTable.ofRows rows).map kernel.packedGraph = .ok (kernel.graph table) := by
  obtain ⟨hcheck, rfl⟩ := DistanceTable.ofRows_eq_ok_iff.mp hrows
  have hsquare := DistanceTable.length_of_checkRows hcheck
  have hlists : (kernel.graph ⟨rows⟩).Lists (kernel.nearPairs rows) := graph_lists hsquare
  have hedges : (kernel.graph ⟨rows⟩).edges = _ := edges_graph_eq hsquare
  refine ⟨fun row hrow column hcolumn => DistanceTable.getElem?_eq_valueAt hsquare hrow hcolumn,
    rfl, hedges, ?_, ?_, hlists.simple.nodup_ends, ?_⟩
  · rw [Graph.edgeCount, hedges, List.length_flatMap]
    simp [Nat.mul_comm]
  · intro edge hedge
    obtain ⟨hne, hsource, htarget⟩ := hlists.graph_proper edge hedge
    refine ⟨hsource, htarget, hne, ?_⟩
    rw [hlists.mem_edges_iff] at hedge ⊢
    obtain ⟨pair, hpair, rfl | rfl⟩ := hedge
    · exact ⟨edge, hpair, .inr rfl⟩
    · exact ⟨pair, hpair, .inl rfl⟩
  · rw [PackedTable.map_packedGraph, hrows]
    rfl

/-- Four items.  One distance is infinite, one lies beyond the threshold and one on it. -/
def spreadRows : List (List Float) :=
  [[0 / 0, 7, 7, 7], [1, -2, 7, 7], [1 / 0, 4, 0, 7], [9, 5, 2, 0]]

/-- The nearest pair has the same weight in both directions. -/
theorem graph_of_ofRows_spread :
    ∃ table, DistanceTable.ofRows spreadRows = .ok table ∧
      (graph ⟨5, 3600⟩ table).nodeCount = 4 ∧
      ((graph ⟨5, 3600⟩ table).edges.map fun edge => (edge.source, edge.target)) =
        [(0, 1), (1, 0), (1, 2), (2, 1), (1, 3), (3, 1), (2, 3), (3, 2)] ∧
      (graph ⟨5, 3600⟩ table).edges.take 2 =
        [{ source := 0, target := 1, weight := 0.9997222607988971 },
          { source := 1, target := 0, weight := 0.9997222607988971 }] := by
  have hrows : DistanceTable.ofRows spreadRows = .ok ⟨spreadRows⟩ := rfl
  obtain ⟨-, hnodes, hedges, -⟩ := graph_of_ofRows hrows ⟨5, 3600⟩
  refine ⟨_, hrows, hnodes, ?_⟩
  rw [hedges]
  exact ⟨rfl, by decide +kernel⟩

end Kernel

/-! ## Values that are not read -/

namespace DistanceTable

/-- Rows of the same lengths with the same values below the diagonal. -/
structure AgreeBelow (left right : List (List Float)) : Prop where
  lengths : left.map List.length = right.map List.length
  below : ∀ row column : Nat, column < row →
    (left[row]?.bind fun values => values[column]?) =
      right[row]?.bind fun values => values[column]?

/-- What is read of rows from number `row` on: of each its number, its length and its values
below the diagonal. -/
def lowerParts (row : Nat) (rows : List (List Float)) : List (Nat × Nat × List Float) :=
  (rows.zipIdx row).map fun (values, row) => (row, values.length, values.take row)

theorem lowerParts_cons (row : Nat) (values : List Float) (rest : List (List Float)) :
    lowerParts row (values :: rest) =
      (row, values.length, values.take row) :: lowerParts (row + 1) rest := rfl

section Agree

variable {left right : List (List Float)}

theorem AgreeBelow.length_eq (hagree : AgreeBelow left right) : left.length = right.length := by
  simpa using congrArg List.length hagree.lengths

theorem AgreeBelow.lowerParts_eq (hagree : AgreeBelow left right) :
    lowerParts 0 left = lowerParts 0 right := by
  have hlength := hagree.length_eq
  apply List.ext_getElem
  · simp [lowerParts, hlength]
  · intro row hleft hright
    have hleft : row < left.length := by simpa [lowerParts] using hleft
    have hright : row < right.length := hlength ▸ hleft
    simp only [lowerParts, List.getElem_map, List.getElem_zipIdx, Nat.zero_add, Prod.mk.injEq,
      true_and]
    constructor
    · have := congrArg (·[row]?) hagree.lengths
      simpa [hleft, hright] using this
    · apply List.ext_getElem?
      intro column
      have := hagree.below row column
      simp only [List.getElem?_take]
      split
      · next hcolumn => simpa [hleft, hright] using this hcolumn
      · rfl

theorem checkRow_congr {size row : Nat} {values others : List Float}
    (hlength : values.length = others.length) (hbelow : values.take row = others.take row) :
    checkRow size row values = checkRow size row others := by
  rw [checkRow, checkRow, hlength, hbelow]

/-- The checks read nothing on or above the diagonal. -/
theorem checkRows_congr {size row : Nat} (hparts : lowerParts row left = lowerParts row right) :
    checkRows size row left = checkRows size row right := by
  induction left generalizing row right with
  | nil =>
      cases right with
      | nil => rfl
      | cons values rest => simp [lowerParts] at hparts
  | cons values rest ih =>
      cases right with
      | nil => simp [lowerParts] at hparts
      | cons others rest' =>
          simp only [lowerParts_cons, List.cons.injEq, Prod.mk.injEq, true_and] at hparts
          rw [checkRows, checkRows, checkRow_congr hparts.1.1 hparts.1.2, ih hparts.2]

/-- The pairs of a table read nothing on or above the diagonal. -/
theorem pairs_eq_lowerParts (rows : List (List Float)) :
    pairs ⟨rows⟩ = (lowerParts 0 rows).flatMap fun (row, _, values) =>
      values.zipIdx.map fun (value, column) => (row, column, value) := by
  rw [pairs, lowerParts, List.flatMap_map]
  rfl

theorem AgreeBelow.graph_eq [Exponential] (hagree : AgreeBelow left right) (kernel : Kernel) :
    kernel.graph ⟨left⟩ = kernel.graph ⟨right⟩ := by
  rw [Kernel.graph, Kernel.graph, pairs_eq_lowerParts, pairs_eq_lowerParts, hagree.lowerParts_eq,
    size, size, hagree.length_eq]

/-- Rows that agree below the diagonal fail or succeed alike. -/
theorem AgreeBelow.ofRows_cases (hagree : AgreeBelow left right) :
    (∃ fault, ofRows left = .error fault ∧ ofRows right = .error fault) ∨
      ofRows left = .ok ⟨left⟩ ∧ ofRows right = .ok ⟨right⟩ := by
  rw [ofRows, ofRows, checkRows_congr hagree.lowerParts_eq, hagree.length_eq]
  cases checkRows right.length 0 right with
  | error fault => exact .inl ⟨fault, rfl, rfl⟩
  | ok done => exact .inr ⟨rfl, rfl⟩

end Agree

/-- Values on and above the diagonal have no influence.  Rows that differ only there fail with
the same fault, or give the same graph and the same clustering under every kernel.  Tables in one
array do the same. -/
theorem ofRows_agreeBelow [Exponential] {left right : List (List Float)}
    (hagree : AgreeBelow left right) :
    ((∃ fault, ofRows left = .error fault ∧ ofRows right = .error fault) ∨
      ∃ table other, ofRows left = .ok table ∧ ofRows right = .ok other ∧
        ∀ kernel : Kernel, kernel.graph table = kernel.graph other ∧
          (kernel.graph table).cluster = (kernel.graph other).cluster) ∧
      ∀ kernel : Kernel, (PackedTable.ofRows left).map kernel.packedGraph =
        (PackedTable.ofRows right).map kernel.packedGraph := by
  constructor
  · obtain ⟨fault, hleft, hright⟩ | ⟨hleft, hright⟩ := hagree.ofRows_cases
    · exact .inl ⟨fault, hleft, hright⟩
    · refine .inr ⟨⟨left⟩, ⟨right⟩, hleft, hright, fun kernel => ?_⟩
      have hgraph := hagree.graph_eq kernel
      exact ⟨hgraph, congrArg Graph.cluster hgraph⟩
  · intro kernel
    rw [PackedTable.map_packedGraph, PackedTable.map_packedGraph]
    obtain ⟨fault, hleft, hright⟩ | ⟨hleft, hright⟩ := hagree.ofRows_cases
    · rw [hleft, hright]
    · rw [hleft, hright, Except.map, Except.map, hagree.graph_eq kernel]

/-- Two tables of three items that differ on and above the diagonal only. -/
def plainRows : List (List Float) :=
  [[0, 1, 4], [1, 0, 2], [4, 2, 0]]

def spoiledRows : List (List Float) :=
  [[0 / 0, -1, 1 / 0], [1, -3, 0 / 0], [4, 2, -0]]

theorem ofRows_agreeBelow_spoiled :
    AgreeBelow plainRows spoiledRows ∧
      ∃ table other, ofRows plainRows = .ok table ∧ ofRows spoiledRows = .ok other ∧
        ∀ kernel : Kernel, kernel.graph table = kernel.graph other ∧
          (kernel.graph table).cluster = (kernel.graph other).cluster := by
  have hagree : AgreeBelow plainRows spoiledRows := by
    refine ⟨rfl, ?_⟩
    intro row column hcolumn
    match row, column with
    | 1, 0 => rfl
    | 2, 0 => rfl
    | 2, 1 => rfl
    | row + 3, column => rfl
  refine ⟨hagree, ?_⟩
  obtain ⟨fault, hfault, -⟩ | htables := (ofRows_agreeBelow hagree).1
  · have hplain : ofRows plainRows = .ok ⟨plainRows⟩ := rfl
    cases hplain.symm.trans hfault
  · exact htables

end DistanceTable

end AverageLinkage
