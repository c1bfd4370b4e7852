import AverageLinkage.Text.Pieces

/-!
# Lines of a byte string

A line ends at a line feed, and one carriage return directly before the line
feed belongs to the end as well.  Bytes after the last line feed form a line of
their own unless there are none.  Each line is decoded as UTF-8 on its own, so
an ill-formed line leaves the lines before it readable.
-/

namespace AverageLinkage.Text

abbrev Bytes := List UInt8

def lineFeed : UInt8 := 10

def carriageReturn : UInt8 := 13

def dropCarriageReturn (line : Bytes) : Bytes :=
  if line.getLast? = some carriageReturn then line.dropLast else line

/-- Turn the pieces between line feeds into lines.  Every piece but the last
was ended by a line feed. -/
def closeLines : List Bytes → List Bytes
  | [] => []
  | [last] => if last.isEmpty then [] else [last]
  | line :: next :: rest => dropCarriageReturn line :: closeLines (next :: rest)

def lines (bytes : Bytes) : List Bytes :=
  closeLines (pieces (· == lineFeed) bytes)

theorem closeLines_cons (line : Bytes) {rest : List Bytes} (hrest : rest ≠ []) :
    closeLines (line :: rest) = dropCarriageReturn line :: closeLines rest := by
  cases rest with
  | nil => contradiction
  | cons next rest => rfl

@[simp]
theorem lines_nil : lines [] = [] := rfl

/-- The bytes before the first line feed are the first line. -/
theorem lines_append_cons {line : Bytes} (hplain : ∀ byte ∈ line, byte ≠ lineFeed)
    (rest : Bytes) :
    lines (line ++ lineFeed :: rest) = dropCarriageReturn line :: lines rest := by
  have hpieces : pieces (· == lineFeed) (line ++ lineFeed :: rest) =
      line :: pieces (· == lineFeed) rest :=
    pieces_append_cons (fun byte hbyte => by simpa using hplain byte hbyte) (by simp) rest
  rw [lines, hpieces, closeLines_cons line (pieces_ne_nil _ rest), lines]

/-- The characters of a UTF-8 byte string, or `none` if it is ill-formed. -/
def decode (bytes : Bytes) : Option (List Char) :=
  (String.fromUTF8? ⟨bytes.toArray⟩).map String.toList

def encode (text : String) : Bytes :=
  text.toUTF8.data.toList

end AverageLinkage.Text
