import AverageLinkage.SystemFault
import AverageLinkage.Text.Line

/-!
# Line-by-line input

Reading a source yields one item per line: its characters, or the cause for
which it could not be read.  Readers go through the items in order, so a fault
in an early line hides a bad item behind it.
-/

namespace AverageLinkage

abbrev Input := List (Except SystemFault (List Char))

namespace Input

def ofLine (line : Text.Bytes) : Except SystemFault (List Char) :=
  match Text.decode line with
  | some text => .ok text
  | none => .error .malformedText

def ofBytes (bytes : Text.Bytes) : Input :=
  (Text.lines bytes).map ofLine

/-- A source whose first read fails. -/
def unreadable (cause : SystemFault) : Input :=
  [.error cause]

end Input

end AverageLinkage
