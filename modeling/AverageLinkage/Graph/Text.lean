import AverageLinkage.Graph.Basic
import AverageLinkage.Number.Positional
import AverageLinkage.Text.Blank
import AverageLinkage.Text.Input

/-!
# Graphs in text

The first line that is not blank is the header: the number of nodes and the
number of edges.  As many lines that are not blank follow as there are edges,
each with source, target and weight.  Lines are counted from one, and blank
lines count.
-/

namespace AverageLinkage.Graph

inductive Fault where
  | missingHeader
  | fieldCount (line expected actual : Nat)
  | invalidInteger (line : Nat) (token : String)
  | invalidWeight (line : Nat) (token : String)
  | nonFiniteWeight (line : Nat) (weight : Float)
  | nodeOutOfRange (line node nodeCount : Nat)
  | selfLoop (line node : Nat)
  | edgeCountMismatch (declared actual : Nat)
  | unreadable (cause : SystemFault)

def Fault.message : Fault → String
  | .missingHeader => "graph file is missing the `<nodeCount> <edgeCount>` header"
  | .fieldCount line expected actual =>
      s!"line {line}: expected {expected} fields but found {actual}"
  | .invalidInteger line token =>
      s!"line {line}: `{token}` is not a valid non-negative integer"
  | .invalidWeight line token => s!"line {line}: `{token}` is not a valid weight"
  | .nonFiniteWeight line weight =>
      s!"line {line}: weight {Positional.text weight} is not finite"
  | .nodeOutOfRange line node nodeCount =>
      s!"line {line}: node {node} is out of range for {nodeCount} nodes"
  | .selfLoop line node => s!"line {line}: self loop on node {node}"
  | .edgeCountMismatch declared actual =>
      s!"header declares {declared} edges but the body holds {actual}"
  | .unreadable cause => s!"failed to read graph file: {cause.message}"

def Fault.code : Fault → String
  | .missingHeader => "GRAPH_MISSING_HEADER"
  | .fieldCount .. => "GRAPH_FIELD_COUNT"
  | .invalidInteger .. => "GRAPH_INVALID_INTEGER"
  | .invalidWeight .. => "GRAPH_INVALID_WEIGHT"
  | .nonFiniteWeight .. => "GRAPH_NON_FINITE_WEIGHT"
  | .nodeOutOfRange .. => "GRAPH_NODE_OUT_OF_RANGE"
  | .selfLoop .. => "GRAPH_SELF_LOOP"
  | .edgeCountMismatch .. => "GRAPH_EDGE_COUNT_MISMATCH"
  | .unreadable _ => "GRAPH_IO"

def readNatural (line : Nat) (token : List Char) : Except Fault Nat :=
  match Natural.read? Natural.wordLimit token with
  | some value => .ok value
  | none => .error (.invalidInteger line (String.ofList token))

def readWeight (line : Nat) (token : List Char) : Except Fault Float :=
  match Decimal.read? token with
  | none => .error (.invalidWeight line (String.ofList token))
  | some weight =>
      if weight.isFinite then .ok weight else .error (.nonFiniteWeight line weight)

def readHeader (line : Nat) : List (List Char) → Except Fault (Nat × Nat)
  | [nodes, edges] => do
      let nodeCount ← readNatural line nodes
      let declared ← readNatural line edges
      return (nodeCount, declared)
  | tokens => .error (.fieldCount line 2 tokens.length)

/-- The checks of the two endpoints, in order. -/
def checkEnds (nodeCount line source target : Nat) : Except Fault Unit :=
  if nodeCount ≤ source then .error (.nodeOutOfRange line source nodeCount)
  else if nodeCount ≤ target then .error (.nodeOutOfRange line target nodeCount)
  else if source = target then .error (.selfLoop line source)
  else .ok ()

def readEdge (nodeCount line : Nat) : List (List Char) → Except Fault (Edge Float)
  | [first, second, third] => do
      let source ← readNatural line first
      let target ← readNatural line second
      checkEnds nodeCount line source target
      let weight ← readWeight line third
      return { source, target, weight }
  | tokens => .error (.fieldCount line 3 tokens.length)

/-- Read the lines after the header, from line number `line` on, when `found`
edges came before.  The result has the edges and the number of all lines that
are not blank; lines beyond the declared number are counted and not parsed. -/
def readBody (nodeCount declared : Nat) :
    (line found : Nat) → Input → Except Fault (List (Edge Float) × Nat)
  | _, found, [] => .ok ([], found)
  | _, _, .error cause :: _ => .error (.unreadable cause)
  | line, found, .ok text :: rest =>
      match Text.words text with
      | [] => readBody nodeCount declared (line + 1) found rest
      | token :: tokens =>
          if found < declared then do
            let edge ← readEdge nodeCount line (token :: tokens)
            let (edges, total) ← readBody nodeCount declared (line + 1) (found + 1) rest
            return (edge :: edges, total)
          else readBody nodeCount declared (line + 1) (found + 1) rest

/-- Read a graph whose header is expected from line number `line` on. -/
def readFrom : (line : Nat) → Input → Except Fault (Graph Float)
  | _, [] => .error .missingHeader
  | _, .error cause :: _ => .error (.unreadable cause)
  | line, .ok text :: rest =>
      match Text.words text with
      | [] => readFrom (line + 1) rest
      | token :: tokens => do
          let (nodeCount, declared) ← readHeader line (token :: tokens)
          let (edges, total) ← readBody nodeCount declared (line + 1) 0 rest
          if total = declared then return { nodeCount, edges }
          else throw (.edgeCountMismatch declared total)

def read (input : Input) : Except Fault (Graph Float) :=
  readFrom 1 input

def renderEdge (edge : Edge Float) : String :=
  s!"{edge.source} {edge.target} {Positional.text edge.weight}\n"

def render (graph : Graph Float) : String :=
  s!"{graph.nodeCount} {graph.edgeCount}\n" ++ String.join (graph.edges.map renderEdge)

end AverageLinkage.Graph
