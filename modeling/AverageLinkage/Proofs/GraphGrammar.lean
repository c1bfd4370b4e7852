import Mathlib
import AverageLinkage.Graph.Text
import AverageLinkage.Proofs.LinesAndWords

/-!
# The grammar of graphs in text

Which byte strings spell which graph, said by their lines and words, and the proof
that reading succeeds exactly on them.  The grammar looks at all lines at once: it
drops the blank ones, takes the first of the others as the header and asks each
further one for an edge.  Reading goes from line to line and stops parsing once it
has the declared number of edges, so the two meet in the lemma about the body.
-/

namespace AverageLinkage

theorem bind_eq_ok_iff {Fault Value Result : Type} {first : Except Fault Value}
    {next : Value → Except Fault Result} {result : Result} :
    first >>= next = .ok result ↔ ∃ value, first = .ok value ∧ next value = .ok result := by
  cases first with
  | error fault => simp [bind, Except.bind]
  | ok value => simp [bind, Except.bind]

/-- A line spells words: it encodes a text with these words. -/
def Text.LineWords (line : Text.Bytes) (tokens : List (List Char)) : Prop :=
  ∃ text, Text.encode (String.ofList text) = line ∧ Text.Words text tokens

namespace Graph

/-- The words of a header: two naturals, the number of nodes and that of edges. -/
def IsHeader (tokens : List (List Char)) (nodeCount declared : Nat) : Prop :=
  ∃ nodes edges, tokens = [nodes, edges] ∧
    Natural.read? Natural.wordLimit nodes = some nodeCount ∧
    Natural.read? Natural.wordLimit edges = some declared

/-- The words of an edge: two naturals for different nodes of the graph and a finite
weight. -/
def IsEdge (nodeCount : Nat) (tokens : List (List Char)) (edge : Edge Float) : Prop :=
  ∃ first second third, tokens = [first, second, third] ∧
    Natural.read? Natural.wordLimit first = some edge.source ∧
    Natural.read? Natural.wordLimit second = some edge.target ∧
    Decimal.read? third = some edge.weight ∧
    edge.source < nodeCount ∧ edge.target < nodeCount ∧ edge.target ≠ edge.source ∧
    edge.weight.isFinite = true

def nonblank (words : List (List (List Char))) : List (List (List Char)) :=
  words.filter fun tokens => !tokens.isEmpty

/-- The words of the lines spell a graph: of those that are not blank the first one is
a header, and each of the others, as many as the header declares, is an edge. -/
def SpelledBy (graph : Graph Float) (words : List (List (List Char))) : Prop :=
  ∃ header body declared, nonblank words = header :: body ∧
    IsHeader header graph.nodeCount declared ∧ body.length = declared ∧
    List.Forall₂ (IsEdge graph.nodeCount) body graph.edges

/-- A byte string spells a graph: all its lines are texts, and their words spell it. -/
def Spelled (bytes : Text.Bytes) (graph : Graph Float) : Prop :=
  ∃ lines words, Text.Lines bytes lines ∧ List.Forall₂ Text.LineWords lines words ∧
    graph.SpelledBy words

/-! ## Single lines -/

theorem readNatural_eq_ok_iff {line value : Nat} {token : List Char} :
    readNatural line token = .ok value ↔ Natural.read? Natural.wordLimit token = some value := by
  rw [readNatural]
  cases Natural.read? Natural.wordLimit token <;> simp

theorem readWeight_eq_ok_iff {line : Nat} {token : List Char} {weight : Float} :
    readWeight line token = .ok weight ↔
      Decimal.read? token = some weight ∧ weight.isFinite = true := by
  rw [readWeight]
  cases Decimal.read? token with
  | none => simp
  | some value =>
      simp only [Option.some.injEq]
      constructor
      · intro hread
        split at hread
        · next hfinite =>
            obtain rfl := Except.ok.inj hread
            exact ⟨rfl, hfinite⟩
        · simp at hread
      · rintro ⟨rfl, hfinite⟩
        rw [if_pos hfinite]

theorem checkEnds_eq_ok_iff {nodeCount line source target : Nat} {done : Unit} :
    checkEnds nodeCount line source target = .ok done ↔
      source < nodeCount ∧ target < nodeCount ∧ target ≠ source := by
  rw [checkEnds]
  split
  · simp
    omega
  · split
    · simp
      omega
    · split
      · simp
        omega
      · simp
        omega

/-- Reading a header succeeds exactly on the words of one. -/
theorem readHeader_eq_ok_iff {line nodeCount declared : Nat} {tokens : List (List Char)} :
    readHeader line tokens = .ok (nodeCount, declared) ↔ IsHeader tokens nodeCount declared := by
  rw [readHeader.eq_def, IsHeader]
  split
  · next nodes edges =>
      simp only [bind_eq_ok_iff, readNatural_eq_ok_iff, List.cons.injEq, and_true]
      constructor
      · rintro ⟨first, hfirst, second, hsecond, hresult⟩
        obtain ⟨rfl, rfl⟩ := Prod.mk.inj (Except.ok.inj hresult)
        exact ⟨nodes, edges, ⟨rfl, rfl⟩, hfirst, hsecond⟩
      · rintro ⟨_, _, ⟨rfl, rfl⟩, hnodes, hedges⟩
        exact ⟨nodeCount, hnodes, declared, hedges, rfl⟩
  · next hshape =>
      simp only [reduceCtorEq, false_iff]
      rintro ⟨nodes, edges, rfl, _⟩
      exact hshape nodes edges rfl

/-- Reading an edge succeeds exactly on the words of one. -/
theorem readEdge_eq_ok_iff {nodeCount line : Nat} {tokens : List (List Char)} {edge : Edge Float} :
    readEdge nodeCount line tokens = .ok edge ↔ IsEdge nodeCount tokens edge := by
  rw [readEdge.eq_def, IsEdge]
  split
  · next first second third =>
      simp only [bind_eq_ok_iff, readNatural_eq_ok_iff, checkEnds_eq_ok_iff, readWeight_eq_ok_iff,
        List.cons.injEq, and_true]
      constructor
      · rintro ⟨source, hsource, target, htarget, _, ⟨hlt, hlt', hne⟩, weight, ⟨hweight, hfinite⟩,
          hresult⟩
        obtain rfl := Except.ok.inj hresult
        exact ⟨first, second, third, ⟨rfl, rfl, rfl⟩, hsource, htarget, hweight, hlt, hlt', hne,
          hfinite⟩
      · rintro ⟨_, _, _, ⟨rfl, rfl, rfl⟩, hsource, htarget, hweight, hlt, hlt', hne, hfinite⟩
        exact ⟨edge.source, hsource, edge.target, htarget, (), ⟨hlt, hlt', hne⟩, edge.weight,
          ⟨hweight, hfinite⟩, rfl⟩
  · next hshape =>
      simp only [reduceCtorEq, false_iff]
      rintro ⟨first, second, third, rfl, _⟩
      exact hshape first second third rfl

/-! ## All lines -/

/-- An item of the input has words: it could be read, and these are its words. -/
def HasWords (item : Except SystemFault (List Char)) (tokens : List (List Char)) : Prop :=
  ∃ text, item = .ok text ∧ Text.words text = tokens

theorem nonblank_cons_cons (token : List Char) (tokens : List (List Char))
    (words : List (List (List Char))) :
    nonblank ((token :: tokens) :: words) = (token :: tokens) :: nonblank words := rfl

theorem exists_hasWords_cons_iff {text : List Char} {rest : Input}
    {Spells : List (List (List Char)) → Prop} :
    (∃ words, List.Forall₂ HasWords (.ok text :: rest) words ∧ Spells words) ↔
      ∃ words, List.Forall₂ HasWords rest words ∧ Spells (Text.words text :: words) := by
  constructor
  · rintro ⟨_, hwords, hspells⟩
    obtain ⟨_, words, ⟨_, htext, rfl⟩, hrest, rfl⟩ := List.forall₂_cons_left_iff.mp hwords
    obtain rfl := Except.ok.inj htext
    exact ⟨words, hrest, hspells⟩
  · rintro ⟨words, hrest, hspells⟩
    exact ⟨_, .cons ⟨text, rfl, rfl⟩ hrest, hspells⟩

theorem not_exists_hasWords_error {cause : SystemFault} {rest : Input}
    {Spells : List (List (List Char)) → Prop} :
    ¬∃ words, List.Forall₂ HasWords (.error cause :: rest) words ∧ Spells words := by
  rintro ⟨_, hwords, -⟩
  obtain ⟨_, _, ⟨_, htext, -⟩, -⟩ := List.forall₂_cons_left_iff.mp hwords
  cases htext

/-! ## The body -/

/-- The words of the lines after some edges spell further ones: the lines that are not blank
bring the number of edges to `total`, and those that are still missing are edges. -/
def BodySpelledBy (nodeCount declared found : Nat) (edges : List (Edge Float)) (total : Nat)
    (words : List (List (List Char))) : Prop :=
  total = found + (nonblank words).length ∧
    List.Forall₂ (IsEdge nodeCount) ((nonblank words).take (declared - found)) edges

section Body

variable {nodeCount declared line found total : Nat} {edges : List (Edge Float)}
  {token : List Char} {tokens : List (List Char)} {words : List (List (List Char))}

/-- While edges are missing, a line has to spell one. -/
theorem bodySpelledBy_edge_iff (hmissing : found < declared) :
    BodySpelledBy nodeCount declared found edges total ((token :: tokens) :: words) ↔
      ∃ edge others, edges = edge :: others ∧ IsEdge nodeCount (token :: tokens) edge ∧
        BodySpelledBy nodeCount declared (found + 1) others total words := by
  have hcount : declared - found = declared - (found + 1) + 1 := by omega
  rw [BodySpelledBy, nonblank_cons_cons, hcount, List.take_succ_cons, List.length_cons,
    List.forall₂_cons_left_iff]
  constructor
  · rintro ⟨htotal, edge, others, hedge, hothers, rfl⟩
    exact ⟨edge, others, rfl, hedge, by omega, hothers⟩
  · rintro ⟨edge, others, rfl, hedge, htotal, hothers⟩
    exact ⟨by omega, edge, others, hedge, hothers, rfl⟩

/-- Once there are enough edges, further lines are counted but not looked at. -/
theorem bodySpelledBy_extra_iff (henough : declared ≤ found) :
    BodySpelledBy nodeCount declared found edges total ((token :: tokens) :: words) ↔
      BodySpelledBy nodeCount declared (found + 1) edges total words := by
  have hnone : declared - found = 0 := by omega
  have hnone' : declared - (found + 1) = 0 := by omega
  rw [BodySpelledBy, BodySpelledBy, nonblank_cons_cons, List.length_cons, hnone, hnone',
    List.take_zero, List.take_zero, Nat.add_right_comm, Nat.add_assoc]

theorem readBody_edge {text : List Char} (hline : Text.words text = token :: tokens)
    (hmissing : found < declared) (rest : Input) :
    readBody nodeCount declared line found (.ok text :: rest) = (do
      let edge ← readEdge nodeCount line (token :: tokens)
      let (edges, total) ← readBody nodeCount declared (line + 1) (found + 1) rest
      return (edge :: edges, total)) := by
  rw [readBody, hline]
  exact if_pos hmissing

theorem readBody_extra {text : List Char} (hline : Text.words text = token :: tokens)
    (henough : declared ≤ found) (rest : Input) :
    readBody nodeCount declared line found (.ok text :: rest) =
      readBody nodeCount declared (line + 1) (found + 1) rest := by
  rw [readBody, hline]
  exact if_neg (Nat.not_lt.mpr henough)

/-- The body is read up to its end if all lines have words that spell it. -/
theorem readBody_eq_ok_iff {input : Input} :
    readBody nodeCount declared line found input = .ok (edges, total) ↔
      ∃ words, List.Forall₂ HasWords input words ∧
        BodySpelledBy nodeCount declared found edges total words := by
  induction input generalizing line found edges with
  | nil =>
      simp only [readBody, Except.ok.injEq, Prod.mk.injEq, List.forall₂_nil_left_iff,
        exists_eq_left, BodySpelledBy]
      simp [nonblank, eq_comm, and_comm]
  | cons item rest ih =>
      cases item with
      | error cause => simp [readBody, not_exists_hasWords_error]
      | ok text =>
          rw [exists_hasWords_cons_iff]
          cases hline : Text.words text with
          | nil =>
              rw [readBody, hline]
              exact ih
          | cons token tokens =>
              by_cases hmissing : found < declared
              · simp only [readBody_edge hline hmissing, bodySpelledBy_edge_iff hmissing,
                  bind_eq_ok_iff, readEdge_eq_ok_iff]
                constructor
                · rintro ⟨edge, hedge, ⟨others, count⟩, hrest, hresult⟩
                  obtain ⟨rfl, rfl⟩ := Prod.mk.inj (Except.ok.inj hresult)
                  obtain ⟨words, hwords, hothers⟩ := ih.mp hrest
                  exact ⟨words, hwords, edge, others, rfl, hedge, hothers⟩
                · rintro ⟨words, hwords, edge, others, rfl, hedge, hothers⟩
                  exact ⟨edge, hedge, (others, total), ih.mpr ⟨words, hwords, hothers⟩, rfl⟩
              · have henough : declared ≤ found := Nat.le_of_not_lt hmissing
                simp only [readBody_extra hline henough, bodySpelledBy_extra_iff henough]
                exact ih

/-- A whole body has as many lines as the header declares, and each is an edge. -/
theorem bodySpelledBy_all_iff :
    BodySpelledBy nodeCount declared 0 edges declared words ↔
      (nonblank words).length = declared ∧
        List.Forall₂ (IsEdge nodeCount) (nonblank words) edges := by
  rw [BodySpelledBy, Nat.zero_add, Nat.sub_zero, eq_comm]
  refine and_congr_right fun hlength => ?_
  rw [List.take_of_length_le hlength.le]

end Body

theorem spelledBy_cons_iff {graph : Graph Float} {token : List Char} {tokens : List (List Char)}
    {words : List (List (List Char))} :
    graph.SpelledBy ((token :: tokens) :: words) ↔
      ∃ declared, IsHeader (token :: tokens) graph.nodeCount declared ∧
        BodySpelledBy graph.nodeCount declared 0 graph.edges declared words := by
  simp only [bodySpelledBy_all_iff, SpelledBy, nonblank_cons_cons]
  constructor
  · rintro ⟨_, _, declared, hsplit, hheader, hbody⟩
    obtain ⟨rfl, rfl⟩ := List.cons.inj hsplit
    exact ⟨declared, hheader, hbody⟩
  · rintro ⟨declared, hheader, hbody⟩
    exact ⟨_, _, declared, rfl, hheader, hbody⟩

/-- Whatever line the header is expected from, a graph is read exactly if the words spell it. -/
theorem readFrom_eq_ok_iff {line : Nat} {input : Input} {graph : Graph Float} :
    readFrom line input = .ok graph ↔
      ∃ words, List.Forall₂ HasWords input words ∧ graph.SpelledBy words := by
  induction input generalizing line with
  | nil => simp [readFrom, SpelledBy, nonblank]
  | cons item rest ih =>
      cases item with
      | error cause => simp [readFrom, not_exists_hasWords_error]
      | ok text =>
          rw [exists_hasWords_cons_iff]
          cases hline : Text.words text with
          | nil =>
              rw [readFrom, hline]
              exact ih
          | cons token tokens =>
              simp only [readFrom, hline, spelledBy_cons_iff, bind_eq_ok_iff]
              constructor
              · rintro ⟨⟨nodeCount, declared⟩, hheader, ⟨edges, total⟩, hbody, hresult⟩
                split at hresult
                · next hdeclared =>
                    obtain rfl := Except.ok.inj hresult
                    obtain ⟨words, hwords, hspelled⟩ := readBody_eq_ok_iff.mp hbody
                    dsimp only at hdeclared
                    subst hdeclared
                    exact ⟨words, hwords, total, readHeader_eq_ok_iff.mp hheader, hspelled⟩
                · cases hresult
              · rintro ⟨words, hwords, declared, hheader, hspelled⟩
                exact ⟨_, readHeader_eq_ok_iff.mpr hheader, (graph.edges, declared),
                  readBody_eq_ok_iff.mpr ⟨words, hwords, hspelled⟩, if_pos rfl⟩

theorem hasWords_ofLine_iff {line : Text.Bytes} {tokens : List (List Char)} :
    HasWords (Input.ofLine line) tokens ↔ Text.LineWords line tokens := by
  have hok : ∀ text, Input.ofLine line = .ok text ↔
      Text.encode (String.ofList text) = line := by
    intro text
    rw [← Text.decode_eq_some_iff, Input.ofLine]
    cases Text.decode line <;> simp
  simp only [HasWords, Text.LineWords, hok, Text.words_eq_iff]

/-- Reading accepts exactly the byte strings that spell a graph, and yields the graph
that they spell. -/
theorem read_eq_ok_iff_spelled (bytes : Text.Bytes) (graph : Graph Float) :
    read (Input.ofBytes bytes) = .ok graph ↔ Spelled bytes graph := by
  rw [read, readFrom_eq_ok_iff, Input.ofBytes]
  simp only [List.forall₂_map_left_iff, hasWords_ofLine_iff, Spelled]
  constructor
  · rintro ⟨words, hwords, hgraph⟩
    exact ⟨Text.lines bytes, words, Text.lines_eq_iff.mp rfl, hwords, hgraph⟩
  · rintro ⟨lines, words, hlines, hwords, hgraph⟩
    obtain rfl := Text.lines_eq_iff.mpr hlines
    exact ⟨words, hwords, hgraph⟩

end Graph

end AverageLinkage
