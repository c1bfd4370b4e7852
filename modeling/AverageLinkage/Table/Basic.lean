import AverageLinkage.SystemFault
import AverageLinkage.Number.Positional

/-!
# Square tables of distances

A table holds one row per item.  Only the entries below the diagonal are used
as distances: they must be numbers that are not negative, while the diagonal
and everything above it may hold any value.

That there is room for as many values as the number of rows calls for is taken
for granted, also where a row turns out to have another length.
-/

namespace AverageLinkage

structure DistanceTable where
  rows : List (List Float)

namespace DistanceTable

/-- Why rows do not form a table.  Rows and columns are counted from zero. -/
inductive Fault where
  | invalidToken (row column : Nat) (token : String)
  | invalidDistance (row column : Nat) (value : Float)
  | rowLength (row expected actual : Nat)
  | unreadable (cause : SystemFault)

def Fault.message : Fault → String
  | .invalidToken row column token => s!"row {row}, column {column}: `{token}` is not a number"
  | .invalidDistance row column value =>
      s!"row {row}, column {column}: invalid distance {Positional.text value}"
  | .rowLength row expected actual =>
      s!"row {row} has {actual} values but the matrix has {expected} rows"
  | .unreadable cause => s!"failed to read distance matrix: {cause.message}"

def Fault.code : Fault → String
  | .invalidToken .. => "MATRIX_INVALID_TOKEN"
  | .invalidDistance .. => "MATRIX_INVALID_DISTANCE"
  | .rowLength .. => "MATRIX_ROW_LENGTH"
  | .unreadable _ => "MATRIX_IO"

def isDistance (value : Float) : Bool :=
  !value.isNaN && !(value < 0)

/-- Column and value of the leftmost entry that is no distance. -/
def firstInvalid? (values : List Float) : Option (Nat × Float) :=
  (values.zipIdx.find? fun (value, _) => !isDistance value).map fun (value, column) =>
    (column, value)

/-- Check one row of a table of the given size: first its length, then the
entries below the diagonal. -/
def checkRow (size row : Nat) (values : List Float) : Except Fault Unit :=
  if values.length = size then
    match firstInvalid? (values.take row) with
    | some (column, value) => .error (.invalidDistance row column value)
    | none => .ok ()
  else .error (.rowLength row size values.length)

/-- Check the rows from number `row` on, in order. -/
def checkRows (size : Nat) : (row : Nat) → List (List Float) → Except Fault Unit
  | _, [] => .ok ()
  | row, values :: rest => do
      checkRow size row values
      checkRows size (row + 1) rest

def ofRows (rows : List (List Float)) : Except Fault DistanceTable := do
  checkRows rows.length 0 rows
  return { rows }

def size (table : DistanceTable) : Nat :=
  table.rows.length

def isEmpty (table : DistanceTable) : Bool :=
  table.rows.isEmpty

/-- The entry in the given row and column, `none` outside of the table. -/
def distance? (table : DistanceTable) (row column : Nat) : Option Float :=
  table.rows[row]? >>= fun values => values[column]?

/-- The entries of one row left of the diagonal, as row, column and value. -/
def rowPairs (row : Nat) (values : List Float) : List (Nat × Nat × Float) :=
  (values.take row).zipIdx.map fun (value, column) => (row, column, value)

/-- All entries below the diagonal, row by row and from left to right. -/
def pairs (table : DistanceTable) : List (Nat × Nat × Float) :=
  table.rows.zipIdx.flatMap fun (values, row) => rowPairs row values

/-- Rows of the distances between points on a line. -/
def lineRows (points : List Float) : List (List Float) :=
  points.map fun left => points.map fun right => (left - right).abs

end DistanceTable

end AverageLinkage
