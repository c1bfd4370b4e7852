import AverageLinkage.Number.Decimal

/-!
# Command lines

A command line names a command and its arguments: two paths, and options that
may stand anywhere between them.  An option is written `--name value` or
`--name=value`; `--` makes everything after it a path.

Arguments are read from left to right.  An argument that waits for its value, or
a value that was just taken, is settled when the next argument is understood;
an argument that is not understood at all is reported before what waits is
looked at.
-/

namespace AverageLinkage

inductive Request where
  | affinity (table graph : String) (maxDistance : Float) (variance? : Option Float)
  | cluster (graph forest : String) (heights : Bool)

namespace Usage

inductive Topic where
  | overview
  | affinity
  | cluster
  | help
  deriving DecidableEq, Repr

/-- Why a command line is no request. -/
inductive Refusal where
  | help (topic : Topic)
  | version
  | missingCommand
  | unknownCommand
  | unknownArgument
  | missingArgument
  /-- An option lacks its value, or a path is empty. -/
  | missingValue
  /-- A value is not a number. -/
  | malformedValue
  | repeatedOption
  /-- A flag is given a value. -/
  | unexpectedValue
  deriving DecidableEq, Repr

/-- Asking for help or for the version is no mistake. -/
def Refusal.exitCode : Refusal → Nat
  | .help _ => 0
  | .version => 0
  | _ => 2

/-- An argument by its first characters. -/
inductive Shape where
  | separator
  | long (name : List Char) (value? : Option (List Char))
  | short (letter : Char) (rest : List Char)
  | plain
  deriving DecidableEq, Repr

/-- Split `name=value` at the first equals sign. -/
def splitValue (text : List Char) : List Char × Option (List Char) :=
  match text.dropWhile (· != '=') with
  | [] => (text, none)
  | _ :: value => (text.takeWhile (· != '='), some value)

def shape : List Char → Shape
  | ['-', '-'] => .separator
  | '-' :: '-' :: text =>
      let (name, value?) := splitValue text
      .long name value?
  | '-' :: letter :: rest => .short letter rest
  | _ => .plain

/-- Whether the text after a minus sign looks like a number: digits, a point that
is not first and stands before the exponent, and an exponent mark that is
neither first nor last. -/
def looksNumeric (text : List Char) : Bool :=
  let isMark (char : Char) : Bool := char == 'e' || char == 'E'
  let mantissa := text.takeWhile (!isMark ·)
  let exponent := text.dropWhile (!isMark ·)
  let mantissaOk := mantissa.all (fun char => char.isDigit || char == '.') &&
    mantissa.count '.' ≤ 1 && mantissa.head? != some '.'
  let exponentOk := match exponent with
    | [] => true
    | _ :: digits => !mantissa.isEmpty && Natural.isNumeral digits
  mantissaOk && exponentOk

/-- An option of a command. -/
inductive Kind where
  | flag
  /-- Takes a number; `negative` allows a separate value that looks like a
  negative number. -/
  | number (negative : Bool)
  deriving DecidableEq, Repr

/-- A command: its topic and the options it knows. -/
structure Grammar where
  topic : Topic
  options : List (String × Kind)
  deriving DecidableEq, Repr

/-- The last argument that was understood but not settled. -/
inductive Pending where
  | nothing
  | path (text : String)
  | awaiting (name : String) (negative : Bool)
  | value (name : String) (text : String)
  deriving DecidableEq, Repr

structure Scan where
  pending : Pending := .nothing
  /-- Number of paths met, settled or not. -/
  pathCount : Nat := 0
  paths : List String := []
  numbers : List (String × Float) := []
  flags : List String := []

def pathLimit : Nat := 2

namespace Scan

def putNumber (scan : Scan) (name text : String) : Except Refusal Scan :=
  if (scan.numbers.lookup name).isSome then .error .repeatedOption
  else match Decimal.read? text.toList with
    | some number => .ok { scan with numbers := scan.numbers ++ [(name, number)] }
    | none => .error .malformedValue

def settle (scan : Scan) : Except Refusal Scan :=
  let settled := { scan with pending := .nothing }
  match scan.pending with
  | .nothing => .ok settled
  | .path text =>
      if text.isEmpty then .error .missingValue
      else .ok { settled with paths := scan.paths ++ [text] }
  | .awaiting .. => .error .missingValue
  | .value name text => settled.putNumber name text

def putFlag (scan : Scan) (name : String) : Except Refusal Scan :=
  if scan.flags.contains name then .error .repeatedOption
  else .ok { scan with flags := name :: scan.flags }

def takePath (scan : Scan) (text : String) : Except Refusal Scan :=
  if scan.pathCount < pathLimit then do
    let scan ← scan.settle
    return { scan with pending := .path text, pathCount := scan.pathCount + 1 }
  else .error .unknownArgument

/-- Take an argument as a value if one is awaited, and as a path otherwise. -/
def takePlain (scan : Scan) (text : String) : Except Refusal Scan :=
  match scan.pending with
  | .awaiting name _ => .ok { scan with pending := .value name text }
  | _ => scan.takePath text

def askHelp (scan : Scan) (topic : Topic) : Except Refusal Scan := do
  let _ ← scan.settle
  throw (.help topic)

def takeLong (grammar : Grammar) (scan : Scan) (name : String) (value? : Option String) :
    Except Refusal Scan :=
  if name = "help" then
    if value?.isSome then .error .unexpectedValue else scan.askHelp grammar.topic
  else match grammar.options.lookup name, value? with
    | none, _ => .error .unknownArgument
    | some .flag, some _ => .error .unexpectedValue
    | some .flag, none => do (← scan.settle).putFlag name
    | some (.number _), some text => do (← scan.settle).putNumber name text
    | some (.number negative), none => do
        let scan ← scan.settle
        return { scan with pending := .awaiting name negative }

def takeShort (grammar : Grammar) (scan : Scan) (argument : String) (letter : Char)
    (rest : List Char) : Except Refusal Scan :=
  match scan.pending with
  | .awaiting name true =>
      if looksNumeric (letter :: rest) then .ok { scan with pending := .value name argument }
      else if letter = 'h' then scan.askHelp grammar.topic
      else .error .unknownArgument
  | _ => if letter = 'h' then scan.askHelp grammar.topic else .error .unknownArgument

/-- Take the arguments after `--`. -/
def takePaths (scan : Scan) : List String → Except Refusal Scan
  | [] => scan.settle
  | argument :: rest => do
      let scan ← scan.takePath argument
      scan.takePaths rest

def takeAll (grammar : Grammar) (scan : Scan) : List String → Except Refusal Scan
  | [] => scan.settle
  | argument :: rest =>
      match shape argument.toList with
      | .separator => scan.takePaths rest
      | .long name value? => do
          let scan ← scan.takeLong grammar (String.ofList name) (value?.map String.ofList)
          scan.takeAll grammar rest
      | .short letter tail => do
          let scan ← scan.takeShort grammar argument letter tail
          scan.takeAll grammar rest
      | .plain => do
          let scan ← scan.takePlain argument
          scan.takeAll grammar rest

end Scan

def maxDistanceOption : String := "max-distance"

def varianceOption : String := "variance"

def heightsOption : String := "heights"

def affinityGrammar : Grammar :=
  { topic := .affinity
    options := [(maxDistanceOption, .number true), (varianceOption, .number false)] }

def clusterGrammar : Grammar :=
  { topic := .cluster
    options := [(heightsOption, .flag)] }

def readAffinity (arguments : List String) : Except Refusal Request := do
  let scan ← ({} : Scan).takeAll affinityGrammar arguments
  match scan.paths, scan.numbers.lookup maxDistanceOption with
  | [table, graph], some maxDistance =>
      return .affinity table graph maxDistance (scan.numbers.lookup varianceOption)
  | _, _ => throw .missingArgument

def readCluster (arguments : List String) : Except Refusal Request := do
  let scan ← ({} : Scan).takeAll clusterGrammar arguments
  match scan.paths with
  | [graph, forest] => return .cluster graph forest (scan.flags.contains heightsOption)
  | _ => throw .missingArgument

def topics : List (String × Topic) :=
  [("affinity", .affinity), ("cluster", .cluster), ("help", .help)]

/-- The help that the words after `help` ask for.  Only the program itself has
commands, so at most one word can follow. -/
def readHelp : List String → Refusal
  | [] => .help .overview
  | [word] => ((topics.lookup word).map .help).getD .unknownCommand
  | _ => .unknownCommand

/-- An argument where the command should stand. -/
def readLeading (argument : String) (rest : List String) : Refusal :=
  match shape argument.toList with
  | .separator =>
      match rest with
      | [] => .missingCommand
      | word :: _ => if (topics.lookup word).isSome then .unknownArgument else .unknownCommand
  | .long name value? =>
      if name = "help".toList then
        if value?.isSome then .unexpectedValue else .help .overview
      else if name = "version".toList then
        if value?.isSome then .unexpectedValue else .version
      else .unknownArgument
  | .short letter _ =>
      if letter = 'h' then .help .overview
      else if letter = 'V' then .version
      else .unknownArgument
  | .plain => .unknownCommand

end Usage

/-- Read a command line, without the name of the program. -/
def Request.read : List String → Except Usage.Refusal Request
  | [] => .error .missingCommand
  | "affinity" :: arguments => Usage.readAffinity arguments
  | "cluster" :: arguments => Usage.readCluster arguments
  | "help" :: words => .error (Usage.readHelp words)
  | argument :: rest => .error (Usage.readLeading argument rest)

end AverageLinkage
