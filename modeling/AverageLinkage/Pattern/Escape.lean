import AverageLinkage.Pattern.Normal
import AverageLinkage.Text.Blank
import AverageLinkage.Text.Reader

/-!
# Characters in the text of patterns

Settings say how characters are meant: whether their case counts, whether they
are confined to ASCII, and whether blanks have a meaning.  Letters stand for
themselves in either case, and the classes of letters, digits and blanks are
known, only where characters are confined to ASCII.
-/

namespace AverageLinkage.Pattern

structure Settings where
  ignoreCase : Bool := false
  multiLine : Bool := false
  /-- The dot includes the end of a line. -/
  dotAll : Bool := false
  /-- Repetitions are lazy, and greedy with a further question mark. -/
  swapGreed : Bool := false
  /-- Characters are not confined to ASCII. -/
  unicode : Bool := true
  carriageReturn : Bool := false
  /-- Blanks and comments have no meaning. -/
  spaced : Bool := false
  deriving DecidableEq, Repr

namespace Settings

def set? (settings : Settings) (value : Bool) : Char → Option Settings
  | 'i' => some { settings with ignoreCase := value }
  | 'm' => some { settings with multiLine := value }
  | 's' => some { settings with dotAll := value }
  | 'U' => some { settings with swapGreed := value }
  | 'u' => some { settings with unicode := value }
  | 'R' => some { settings with carriageReturn := value }
  | 'x' => some { settings with spaced := value }
  | _ => none

/-- Apply letters to settings; those after a minus sign are switched off.  No
letter and no sign may stand twice, and a letter must follow the sign. -/
def adjust? (settings : Settings) (letters : List Char) : Option Settings :=
  if !letters.Nodup || letters.getLast? = some '-' then none
  else
    let switchedOn := letters.takeWhile (· != '-')
    let switchedOff := (letters.dropWhile (· != '-')).drop 1
    (switchedOn.foldlM (fun (current : Settings) letter => current.set? true letter) settings).bind
      (switchedOff.foldlM fun (current : Settings) letter => current.set? false letter)

end Settings

/-! ## Blanks and comments -/

def skipFrom : (comment : Bool) → List Char → List Char
  | _, [] => []
  | false, char :: rest =>
      if Text.isBlank char then skipFrom false rest
      else if char = '#' then skipFrom true rest
      else char :: rest
  | true, char :: rest => skipFrom (char != '\n') rest

/-- Skip blanks, and comments up to the end of the line, where they have no
meaning. -/
def skip (settings : Settings) (text : List Char) : List Char :=
  if settings.spaced then skipFrom false text else text

theorem length_skipFrom_le (comment : Bool) (text : List Char) :
    (skipFrom comment text).length ≤ text.length := by
  fun_induction skipFrom comment text <;> grind

theorem length_skip_le (settings : Settings) (text : List Char) :
    (skip settings text).length ≤ text.length := by
  rw [skip]
  split
  · exact length_skipFrom_le false text
  · exact Nat.le_refl _

theorem length_le_of_skip_eq_cons {settings : Settings} {text rest : List Char} {char : Char}
    (hskip : skip settings text = char :: rest) : rest.length ≤ text.length := by
  have hlength := length_skip_le settings text
  rw [hskip, List.length_cons] at hlength
  omega

/-! ## Characters -/

inductive Escape where
  /-- A character; `coded` tells that it was given by a code of two digits. -/
  | char (char : Char) (coded : Bool)
  /-- A class of ASCII characters by its name, or all others. -/
  | named (name : String) (negated : Bool)
  | textStart
  | textEnd
  | wordEdge
  | noWordEdge
  | wordStart
  | wordEnd
  deriving DecidableEq, Repr

def hexValue? (char : Char) : Option Nat :=
  if char.isDigit then some (char.toNat - '0'.toNat)
  else if 'a' ≤ char && char ≤ 'f' then some (char.toNat - 'a'.toNat + 10)
  else if 'A' ≤ char && char ≤ 'F' then some (char.toNat - 'A'.toNat + 10)
  else none

/-- Read a code with a fixed number of digits. -/
def hexCode? (settings : Settings) : (digits : Nat) → (value : Nat) → List Char →
    Option (Nat × List Char)
  | 0, value, text => some (value, text)
  | digits + 1, value, text =>
      match skip settings text with
      | [] => none
      | char :: rest => do
          hexCode? settings digits (16 * value + (← hexValue? char)) rest

def codedChar? (settings : Settings) (digits : Nat) (text : List Char) :
    Option (Escape × List Char) := do
  let (value, rest) ← hexCode? settings digits 0 text
  if value.isValidChar then
    return (.char (Char.ofNat value) (digits == 2), rest)
  else none

theorem leaves_hexCode? (settings : Settings) (digits value : Nat) (text : List Char) :
    Leaves text.length (hexCode? settings digits value text) := by
  induction digits generalizing value text with
  | zero => simp [hexCode?]
  | succ digits ih =>
      rw [hexCode?]
      split
      · exact leaves_none
      · next char rest hskip =>
        apply Leaves.bind
        intro digit _
        exact (ih _ rest).mono (length_le_of_skip_eq_cons hskip)

theorem leaves_codedChar? (settings : Settings) (digits : Nat) (text : List Char) :
    Leaves text.length (codedChar? settings digits text) := by
  apply Leaves.bind
  rintro ⟨value, rest⟩ hcode
  have hrest := leaves_hexCode? settings digits 0 text value rest hcode
  dsimp only
  split
  · exact leaves_some.mpr hrest
  · exact leaves_none

/-- Characters that can always stand after a backslash to mean themselves: the
ASCII characters without letters, digits and angle brackets. -/
def isPlainEscape (char : Char) : Bool :=
  char.toNat < 128 && !char.isAlphanum && char != '<' && char != '>'

def escape? (settings : Settings) : List Char → Option (Escape × List Char)
  | [] => none
  | char :: rest =>
      if isPlainEscape char then some (.char char false, rest)
      else match char with
        | 'x' => codedChar? settings 2 rest
        | 'u' => codedChar? settings 4 rest
        | 'U' => codedChar? settings 8 rest
        | 'd' => some (.named "digit" false, rest)
        | 'D' => some (.named "digit" true, rest)
        | 's' => some (.named "space" false, rest)
        | 'S' => some (.named "space" true, rest)
        | 'w' => some (.named "word" false, rest)
        | 'W' => some (.named "word" true, rest)
        | 'a' => some (.char '\x07' false, rest)
        | 'f' => some (.char '\x0c' false, rest)
        | 't' => some (.char '\t' false, rest)
        | 'n' => some (.char '\n' false, rest)
        | 'r' => some (.char '\r' false, rest)
        | 'v' => some (.char '\x0b' false, rest)
        | 'A' => some (.textStart, rest)
        | 'z' => some (.textEnd, rest)
        | 'b' => some (.wordEdge, rest)
        | 'B' => some (.noWordEdge, rest)
        | '<' => some (.wordStart, rest)
        | '>' => some (.wordEnd, rest)
        | _ => none

theorem leaves_escape? (settings : Settings) (text : List Char) :
    Leaves text.length (escape? settings text) := by
  unfold escape?
  split
  · exact leaves_none
  · next char rest =>
    have hle : rest.length ≤ (char :: rest).length := Nat.le_succ _
    split
    · exact leaves_some.mpr hle
    · split
      all_goals first
        | exact leaves_none
        | exact leaves_some.mpr hle
        | exact (leaves_codedChar? settings _ rest).mono hle

/-- A character by itself. -/
def charSet? (settings : Settings) (char : Char) (coded : Bool) : Option CharSet :=
  if settings.unicode then
    if settings.ignoreCase then none else some (.singleton char)
  else if coded && 128 ≤ char.toNat then none
  else if settings.ignoreCase && char.toNat < 128 then
    some (.foldedRange char.toNat char.toNat)
  else some (.singleton char)

def rangeSet? (settings : Settings) (first last : Char) : Option CharSet :=
  if last < first then none
  else if settings.unicode then
    if settings.ignoreCase then none else some (.between first last)
  else if 128 ≤ last.toNat then none
  else if settings.ignoreCase then some (.foldedRange first.toNat last.toNat)
  else some (.between first last)

/-- All other characters; ASCII characters have no others to be confined to. -/
def complement? (settings : Settings) (negated : Bool) (set : CharSet) : Option CharSet :=
  if !negated then some set
  else if settings.unicode then some (.compl set)
  else none

def classSet? (settings : Settings) (ranges : List (Char × Char)) (negated : Bool) :
    Option CharSet := do
  let sets ← ranges.mapM fun (first, last) => rangeSet? settings first last
  complement? settings negated (sets.foldr .union .none)

/-- A class that is named by a letter after a backslash. -/
def letterSet? (settings : Settings) (name : String) (negated : Bool) : Option CharSet := do
  if settings.unicode then none
  else classSet? settings (← CharSet.ofClassName? name) negated

def dot? (settings : Settings) : Option CharSet :=
  if !settings.unicode then none
  else if settings.dotAll then some (.compl .none)
  else if settings.carriageReturn then some (.compl (.ofList ['\r', '\n']))
  else some (.compl (.singleton '\n'))

end AverageLinkage.Pattern
