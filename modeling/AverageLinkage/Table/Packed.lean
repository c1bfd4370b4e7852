import AverageLinkage.Kernel
import AverageLinkage.Table.Text

/-!
# Distance tables in one array

The same tables with all values in one array, row behind row.  A value is found by its
place in the array, and the rows come back as stretches of equal width.  That there is room
for the array is taken for granted here too.
-/

namespace AverageLinkage

open DistanceTable (Fault checkRow rowPairs)

/-- A square table whose rows stand one behind the other. -/
structure PackedTable where
  size : Nat
  values : Array Float
  size_values : values.size = size * size

namespace PackedTable

/-- Check the rows from number `row` on, in order, and put the values of each behind those
of the rows before it. -/
def packRows (size : Nat) : (row : Nat) → Array Float → List (List Float) →
    Except Fault (Array Float)
  | _, values, [] => .ok values
  | row, values, entries :: rest => do
      checkRow size row entries
      packRows size (row + 1) (values ++ entries.toArray) rest

theorem length_of_checkRow {size row : Nat} {entries : List Float} {done : Unit}
    (hcheck : checkRow size row entries = .ok done) : entries.length = size := by
  rw [checkRow] at hcheck
  split at hcheck
  · assumption
  · contradiction

theorem packRows_cons {size row : Nat} {values packed : Array Float} {entries : List Float}
    {rest : List (List Float)} (hpack : packRows size row values (entries :: rest) = .ok packed) :
    checkRow size row entries = .ok () ∧
      packRows size (row + 1) (values ++ entries.toArray) rest = .ok packed := by
  rw [packRows] at hpack
  cases hcheck : checkRow size row entries with
  | error fault => simp [hcheck, bind, Except.bind] at hpack
  | ok done => simpa [hcheck, bind, Except.bind] using hpack

theorem size_packRows {size row : Nat} {values packed : Array Float} {rows : List (List Float)}
    (hpack : packRows size row values rows = .ok packed) :
    packed.size = values.size + rows.length * size := by
  induction rows generalizing row values with
  | nil =>
      obtain rfl := Except.ok.inj hpack
      simp
  | cons entries rest ih =>
      obtain ⟨hcheck, hrest⟩ := packRows_cons hpack
      have hsize : (values ++ entries.toArray).size = values.size + size := by
        simp [length_of_checkRow hcheck]
      rw [ih hrest, hsize, List.length_cons, Nat.succ_mul]
      omega

def ofRows (rows : List (List Float)) : Except Fault PackedTable :=
  match hpack : packRows rows.length 0 #[] rows with
  | .error fault => .error fault
  | .ok values => .ok
      { size := rows.length
        values
        size_values := by simpa using size_packRows hpack }

def read (input : Input) : Except Fault PackedTable := do
  let rows ← DistanceTable.readRows 0 input
  ofRows rows

def distance? (table : PackedTable) (row column : Nat) : Option Float :=
  if table.size ≤ row ∨ table.size ≤ column then none
  else table.values[row * table.size + column]?

/-- The stretches of `width` values from the beginning on.  Values behind the last whole
stretch are left out. -/
def chunks (width : Nat) (values : Array Float) : List (List Float) :=
  (List.range (values.size / width)).map fun index =>
    (values.extract (index * width) (index * width + width)).toList

def pairs (table : PackedTable) : List (Nat × Nat × Float) :=
  (chunks (max table.size 1) table.values).zipIdx.flatMap fun (entries, row) => rowPairs row entries

end PackedTable

def Kernel.packedGraph [Exponential] (kernel : Kernel) (table : PackedTable) : Graph Float :=
  { nodeCount := table.size
    edges := table.pairs.flatMap kernel.pairEdges }

end AverageLinkage
