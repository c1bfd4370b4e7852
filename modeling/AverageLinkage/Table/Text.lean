import AverageLinkage.Table.Basic
import AverageLinkage.Text.Blank
import AverageLinkage.Text.Input

/-!
# Distance tables in text

Every line that is not blank is a row of numbers between blanks.  All tokens
are read before the shape of the table is checked, so a token that is no number
is reported even when an earlier row has the wrong length.
-/

namespace AverageLinkage.DistanceTable

/-- Read the tokens of one row from column `column` on. -/
def readValues (row : Nat) : (column : Nat) → List (List Char) → Except Fault (List Float)
  | _, [] => .ok []
  | column, token :: rest =>
      match Decimal.read? token with
      | none => .error (.invalidToken row column (String.ofList token))
      | some value => do
          let values ← readValues row (column + 1) rest
          return value :: values

/-- Read the lines from row `row` on.  Blank lines are not rows. -/
def readRows : (row : Nat) → Input → Except Fault (List (List Float))
  | _, [] => .ok []
  | _, .error cause :: _ => .error (.unreadable cause)
  | row, .ok line :: rest =>
      match Text.words line with
      | [] => readRows row rest
      | token :: tokens => do
          let values ← readValues row 0 (token :: tokens)
          let rows ← readRows (row + 1) rest
          return values :: rows

def read (input : Input) : Except Fault DistanceTable := do
  let rows ← readRows 0 input
  ofRows rows

def renderRow (values : List Float) : String :=
  String.intercalate " " (values.map Positional.text)

def renderRows (rows : List (List Float)) : String :=
  String.join (rows.map fun values => renderRow values ++ "\n")

end AverageLinkage.DistanceTable
