import Mathlib
import AverageLinkage.Proofs.GraphGrammar
import AverageLinkage.Proofs.NumberText

/-!
# A written graph is read back

Every line of a written graph consists of number texts with single spaces between them,
so the lines and words of the written text are known.  Reading it gives the graph back
if all edges are sound, and ends at the first edge that is not with the fault of the
first check which that edge fails.
-/

namespace AverageLinkage

/-! ## Sound and rejected edges -/

/-- Counts and ends of edges are 64-bit words. -/
structure Graph.FitsWords (graph : Graph Float) : Prop where
  nodeCount_le : graph.nodeCount ≤ Natural.wordLimit
  edgeCount_le : graph.edgeCount ≤ Natural.wordLimit
  ends_le : ∀ edge ∈ graph.edges,
    edge.source ≤ Natural.wordLimit ∧ edge.target ≤ Natural.wordLimit

/-- An edge between two different nodes of a graph, with a finite weight. -/
structure Edge.Sound (nodeCount : Nat) (edge : Edge Float) : Prop where
  source_lt : edge.source < nodeCount
  target_lt : edge.target < nodeCount
  ne : edge.source ≠ edge.target
  finite : edge.weight.isFinite = true

/-- The fault of an edge in a line: that of the first check which the edge fails. -/
inductive Edge.Rejected (nodeCount line : Nat) (edge : Edge Float) : Graph.Fault → Prop
  | source (hsource : nodeCount ≤ edge.source) :
      Rejected nodeCount line edge (.nodeOutOfRange line edge.source nodeCount)
  | target (hsource : edge.source < nodeCount) (htarget : nodeCount ≤ edge.target) :
      Rejected nodeCount line edge (.nodeOutOfRange line edge.target nodeCount)
  | loop (hsource : edge.source < nodeCount) (htarget : edge.target < nodeCount)
      (heq : edge.source = edge.target) :
      Rejected nodeCount line edge (.selfLoop line edge.source)
  | weight (hsource : edge.source < nodeCount) (htarget : edge.target < nodeCount)
      (hne : edge.source ≠ edge.target) (hweight : edge.weight.isFinite = false) :
      Rejected nodeCount line edge (.nonFiniteWeight line edge.weight)

theorem exists_first_not {Item : Type} {Good : Item → Prop} {items : List Item}
    (hsome : ¬∀ item ∈ items, Good item) :
    ∃ before item after, items = before ++ item :: after ∧ (∀ earlier ∈ before, Good earlier) ∧
      ¬Good item := by
  classical
  cases hfind : items.find? fun item => !decide (Good item) with
  | none =>
      refine absurd ?_ hsome
      simpa using hfind
  | some item =>
      obtain ⟨hitem, before, after, hsplit, hbefore⟩ := List.find?_eq_some_iff_append.mp hfind
      exact ⟨before, item, after, hsplit, by simpa using hbefore, by simpa using hitem⟩

theorem Edge.exists_rejected {nodeCount : Nat} {edge : Edge Float}
    (hunsound : ¬edge.Sound nodeCount) (line : Nat) :
    ∃ fault, edge.Rejected nodeCount line fault := by
  by_cases hsource : edge.source < nodeCount
  · by_cases htarget : edge.target < nodeCount
    · by_cases heq : edge.source = edge.target
      · exact ⟨_, .loop hsource htarget heq⟩
      · cases hweight : edge.weight.isFinite with
        | true => exact absurd ⟨hsource, htarget, heq, hweight⟩ hunsound
        | false => exact ⟨_, .weight hsource htarget heq hweight⟩
    · exact ⟨_, .target hsource (Nat.le_of_not_lt htarget)⟩
  · exact ⟨_, .source (Nat.le_of_not_lt hsource)⟩

namespace Text

/-! ## Lines of tokens -/

/-- A word of graphic characters. -/
structure IsToken (token : List Char) : Prop where
  ne_nil : token ≠ []
  isGraphic : ∀ char ∈ token, IsGraphic char

def spaced (tokens : List (List Char)) : List Char :=
  List.intercalate [' '] tokens

def tokenLine (tokens : List (List Char)) : String :=
  String.ofList (spaced tokens) ++ "\n"

theorem IsToken.isBlank {token : List Char} (htoken : IsToken token) :
    ∀ char ∈ token, isBlank char = false :=
  fun char hmem => (htoken.isGraphic char hmem).isBlank

theorem spaced_cons_cons (token next : List Char) (tokens : List (List Char)) :
    spaced (token :: next :: tokens) = token ++ ' ' :: spaced (next :: tokens) := by
  simp [spaced, List.intercalate_cons_cons]

/-- Tokens with single spaces between them are found again as words. -/
theorem words_spaced {tokens : List (List Char)} (htokens : ∀ token ∈ tokens, IsToken token) :
    words (spaced tokens) = tokens := by
  induction tokens with
  | nil => rfl
  | cons token tokens ih =>
      have htoken := htokens token List.mem_cons_self
      have hrest : ∀ other ∈ tokens, IsToken other :=
        fun other hother => htokens other (List.mem_cons_of_mem token hother)
      cases tokens with
      | nil => simpa [spaced] using words_eq_singleton htoken.ne_nil htoken.isBlank
      | cons next tokens =>
          rw [spaced_cons_cons, words_append_cons htoken.ne_nil htoken.isBlank (by decide),
            ih hrest]

theorem mem_spaced {tokens : List (List Char)} {char : Char} (hmem : char ∈ spaced tokens) :
    char = ' ' ∨ ∃ token ∈ tokens, char ∈ token := by
  induction tokens with
  | nil => simp [spaced] at hmem
  | cons token tokens ih =>
      cases tokens with
      | nil => exact .inr ⟨token, List.mem_cons_self, by simpa [spaced] using hmem⟩
      | cons next tokens =>
          rw [spaced_cons_cons, List.mem_append, List.mem_cons] at hmem
          rcases hmem with hmem | hmem | hmem
          · exact .inr ⟨token, List.mem_cons_self, hmem⟩
          · exact .inl hmem
          · exact (ih hmem).imp_right fun ⟨other, hother, hchar⟩ =>
              ⟨other, List.mem_cons_of_mem token hother, hchar⟩

theorem encode_lineFeed : encode "\n" = [lineFeed] := by
  decide

/-- Printed characters of ASCII are encoded as one byte, which does not end a line. -/
theorem ne_of_mem_utf8EncodeChar {char : Char} {byte : UInt8}
    (hchar : char = ' ' ∨ IsGraphic char) (hbyte : byte ∈ String.utf8EncodeChar char) :
    byte ≠ lineFeed ∧ byte ≠ carriageReturn := by
  have hrange : 0x20 ≤ char.toNat ∧ char.toNat < 0x7f := by
    rcases hchar with rfl | ⟨hlow, hhigh⟩
    · decide
    · exact ⟨hlow.le, hhigh⟩
  have hencode : String.utf8EncodeChar char = [UInt8.ofNat char.toNat] :=
    if_pos (show char.toNat ≤ 0x7f by omega)
  rw [hencode, List.mem_singleton] at hbyte
  have hvalue : byte.toNat = char.toNat := by
    rw [hbyte, UInt8.toNat_ofNat']
    omega
  constructor
  · rintro rfl
    have hfeed : lineFeed.toNat = 10 := rfl
    omega
  · rintro rfl
    have hreturn : carriageReturn.toNat = 13 := rfl
    omega

/-- Bytes of a line of tokens are neither line feeds nor carriage returns. -/
theorem ne_of_mem_encode_spaced {tokens : List (List Char)}
    (htokens : ∀ token ∈ tokens, IsToken token) {byte : UInt8}
    (hbyte : byte ∈ encode (String.ofList (spaced tokens))) :
    byte ≠ lineFeed ∧ byte ≠ carriageReturn := by
  rw [encode_ofList, List.mem_flatMap] at hbyte
  obtain ⟨char, hmem, hbyte⟩ := hbyte
  refine ne_of_mem_utf8EncodeChar ((mem_spaced hmem).imp_right ?_) hbyte
  rintro ⟨token, htoken, hchar⟩
  exact (htokens token htoken).isGraphic char hchar

/-- The first item of an input that begins with a line of tokens. -/
theorem ofBytes_tokenLine_append {tokens : List (List Char)}
    (htokens : ∀ token ∈ tokens, IsToken token) (rest : Bytes) :
    Input.ofBytes (encode (tokenLine tokens) ++ rest) =
      .ok (spaced tokens) :: Input.ofBytes rest := by
  have hplain : lineFeed ∉ encode (String.ofList (spaced tokens)) :=
    fun hmem => (ne_of_mem_encode_spaced htokens hmem).1 rfl
  have hlast : (encode (String.ofList (spaced tokens))).getLast? ≠ some carriageReturn :=
    fun hlast => (ne_of_mem_encode_spaced htokens (List.mem_of_getLast? hlast)).2 rfl
  have hline : Input.ofLine (encode (String.ofList (spaced tokens))) = .ok (spaced tokens) := by
    rw [Input.ofLine, decode_eq_some_iff.mpr rfl]
  rw [tokenLine, encode_append, encode_lineFeed, List.append_assoc, List.singleton_append,
    Input.ofBytes, lines_append_lineFeed hplain, dropCarriageReturn, if_neg hlast, List.map_cons,
    hline, Input.ofBytes]

/-- A text of token lines is read back line by line. -/
theorem ofBytes_join_tokenLine {lines : List (List (List Char))}
    (hlines : ∀ tokens ∈ lines, ∀ token ∈ tokens, IsToken token) :
    Input.ofBytes (encode (String.join (lines.map tokenLine))) =
      lines.map fun tokens => .ok (spaced tokens) := by
  induction lines with
  | nil => rfl
  | cons tokens lines ih =>
      rw [List.map_cons, String.join_cons, encode_append,
        ofBytes_tokenLine_append (hlines tokens List.mem_cons_self), List.map_cons,
        ih fun other hother => hlines other (List.mem_cons_of_mem tokens hother)]

/-- The words of written lines of tokens are the tokens. -/
theorem words_join_tokenLine {lines : List (List (List Char))}
    (hlines : ∀ tokens ∈ lines, ∀ token ∈ tokens, IsToken token) :
    (Input.ofBytes (encode (String.join (lines.map tokenLine)))).map (Except.map words) =
      lines.map Except.ok := by
  rw [ofBytes_join_tokenLine hlines, List.map_map]
  apply List.map_congr_left
  intro tokens hmem
  rw [Function.comp_apply, Except.map, words_spaced (hlines tokens hmem)]

end Text

namespace Graph

open Text (IsToken spaced tokenLine)

/-! ## The lines of a written graph -/

def headerTokens (graph : Graph Float) : List (List Char) :=
  [Nat.toDigits 10 graph.nodeCount, Nat.toDigits 10 graph.edgeCount]

def edgeTokens (edge : Edge Float) : List (List Char) :=
  [Nat.toDigits 10 edge.source, Nat.toDigits 10 edge.target, Positional.chars edge.weight]

theorem isToken_toDigits (value : Nat) : IsToken (Nat.toDigits 10 value) :=
  ⟨Nat.toDigits_ne_nil, fun _ hmem => Text.isGraphic_of_isDigit (Natural.isDigit_toDigits hmem)⟩

theorem isToken_chars (value : Float) : IsToken (Positional.chars value) :=
  ⟨Positional.chars_ne_nil value, Positional.isGraphic_chars value⟩

theorem isToken_headerTokens (graph : Graph Float) :
    ∀ token ∈ headerTokens graph, IsToken token := by
  simp [headerTokens, isToken_toDigits]

theorem isToken_edgeTokens (edge : Edge Float) : ∀ token ∈ edgeTokens edge, IsToken token := by
  simp [edgeTokens, isToken_toDigits, isToken_chars]

theorem isToken_tokens (graph : Graph Float) :
    ∀ tokens ∈ headerTokens graph :: graph.edges.map edgeTokens, ∀ token ∈ tokens,
      IsToken token := by
  intro tokens hmem
  rcases List.mem_cons.mp hmem with rfl | hmem
  · exact isToken_headerTokens graph
  · obtain ⟨edge, -, rfl⟩ := List.mem_map.mp hmem
    exact isToken_edgeTokens edge

theorem toString_string (text : String) : toString text = text := rfl

theorem renderEdge_eq (edge : Edge Float) : renderEdge edge = tokenLine (edgeTokens edge) := by
  rw [renderEdge, tokenLine, edgeTokens, Text.spaced_cons_cons, Text.spaced_cons_cons]
  apply String.toList_inj.mp
  simp [spaced, Positional.text, toString_string]

/-- The text of a graph consists of lines of tokens. -/
theorem render_eq (graph : Graph Float) :
    render graph =
      String.join ((headerTokens graph :: graph.edges.map edgeTokens).map tokenLine) := by
  have hheader : s!"{graph.nodeCount} {graph.edgeCount}\n" = tokenLine (headerTokens graph) := by
    rw [tokenLine, headerTokens, Text.spaced_cons_cons]
    apply String.toList_inj.mp
    simp [spaced, toString_string]
  have hedges : graph.edges.map renderEdge = (graph.edges.map edgeTokens).map tokenLine := by
    rw [List.map_map]
    exact List.map_congr_left fun edge _ => renderEdge_eq edge
  rw [render, hheader, hedges, List.map_cons, String.join_cons]

/-- The input that a written graph makes. -/
theorem ofBytes_render (graph : Graph Float) :
    Input.ofBytes (Text.encode graph.render) =
      (headerTokens graph :: graph.edges.map edgeTokens).map fun tokens => .ok (spaced tokens) := by
  rw [render_eq, Text.ofBytes_join_tokenLine (isToken_tokens graph)]

/-! ## Reading a written graph -/

section Reading

variable {nodeCount line : Nat} {edge : Edge Float}

/-- The tokens of a sound edge are those of an edge, and of this one. -/
theorem isEdge_edgeTokens (hlimit : nodeCount ≤ Natural.wordLimit) (hsound : edge.Sound nodeCount) :
    IsEdge nodeCount (edgeTokens edge) edge :=
  ⟨_, _, _, rfl, Natural.read?_toDigits (hsound.source_lt.le.trans hlimit),
    Natural.read?_toDigits (hsound.target_lt.le.trans hlimit), Decimal.read?_chars edge.weight,
    hsound.source_lt, hsound.target_lt, hsound.ne.symm, hsound.finite⟩

/-- An edge that is not sound is written all the same, and rejected when it is read. -/
theorem readEdge_of_rejected {fault : Fault} (hsource : edge.source ≤ Natural.wordLimit)
    (htarget : edge.target ≤ Natural.wordLimit) (hrejected : edge.Rejected nodeCount line fault) :
    readEdge nodeCount line (edgeTokens edge) = .error fault := by
  have hsource' : readNatural line (Nat.toDigits 10 edge.source) = .ok edge.source :=
    readNatural_eq_ok_iff.mpr (Natural.read?_toDigits hsource)
  have htarget' : readNatural line (Nat.toDigits 10 edge.target) = .ok edge.target :=
    readNatural_eq_ok_iff.mpr (Natural.read?_toDigits htarget)
  rw [edgeTokens, readEdge, hsource', htarget', readWeight, Decimal.read?_chars]
  cases hrejected with
  | source hsource => simp [checkEnds, hsource, bind, Except.bind]
  | target hsource htarget => simp [checkEnds, hsource.not_ge, htarget, bind, Except.bind]
  | loop hsource htarget heq =>
      simp [checkEnds, htarget.not_ge, heq, bind, Except.bind]
  | weight hsource htarget hne hweight =>
      simp [checkEnds, hsource.not_ge, htarget.not_ge, hne, hweight, bind, Except.bind]

theorem words_edgeTokens (edge : Edge Float) :
    Text.words (spaced (edgeTokens edge)) = edgeTokens edge :=
  Text.words_spaced (isToken_edgeTokens edge)

theorem readBody_cons_edge {declared found : Nat} (hfound : found < declared) (rest : Input) :
    readBody nodeCount declared line found (.ok (spaced (edgeTokens edge)) :: rest) = (do
      let first ← readEdge nodeCount line (edgeTokens edge)
      let (edges, total) ← readBody nodeCount declared (line + 1) (found + 1) rest
      return (first :: edges, total)) :=
  readBody_edge (words_edgeTokens edge) hfound rest

/-- The lines of sound edges are passed, and the first other one ends reading. -/
theorem readBody_of_rejected {declared found : Nat} {before after : List (Edge Float)}
    {fault : Fault} (hlimit : nodeCount ≤ Natural.wordLimit)
    (hsource : edge.source ≤ Natural.wordLimit) (htarget : edge.target ≤ Natural.wordLimit)
    (hfound : found + before.length < declared)
    (hbefore : ∀ earlier ∈ before, earlier.Sound nodeCount)
    (hrejected : edge.Rejected nodeCount (line + before.length) fault) :
    readBody nodeCount declared line found
        ((before ++ edge :: after).map fun edge => .ok (spaced (edgeTokens edge))) =
      .error fault := by
  induction before generalizing line found with
  | nil =>
      rw [List.length_nil, Nat.add_zero] at hfound hrejected
      rw [List.nil_append, List.map_cons, readBody_cons_edge hfound,
        readEdge_of_rejected hsource htarget hrejected]
      rfl
  | cons first before ih =>
      rw [List.length_cons] at hfound hrejected
      have hfirst : readEdge nodeCount line (edgeTokens first) = .ok first :=
        readEdge_eq_ok_iff.mpr (isEdge_edgeTokens hlimit (hbefore first List.mem_cons_self))
      have hrest : readBody nodeCount declared (line + 1) (found + 1)
          ((before ++ edge :: after).map fun edge => .ok (spaced (edgeTokens edge))) =
            .error fault :=
        ih (by omega) (fun earlier hmem => hbefore earlier (List.mem_cons_of_mem first hmem))
          (by rwa [Nat.add_right_comm])
      rw [List.cons_append, List.map_cons, readBody_cons_edge (by omega), hfirst, hrest]
      rfl

end Reading

section Written

variable {graph : Graph Float}

theorem isHeader_headerTokens (hnodes : graph.nodeCount ≤ Natural.wordLimit)
    (hedges : graph.edgeCount ≤ Natural.wordLimit) :
    IsHeader (headerTokens graph) graph.nodeCount graph.edgeCount :=
  ⟨_, _, rfl, Natural.read?_toDigits hnodes, Natural.read?_toDigits hedges⟩

/-- The words of a written graph spell it if its edges are sound. -/
theorem spelledBy_tokens (hnodes : graph.nodeCount ≤ Natural.wordLimit)
    (hedges : graph.edgeCount ≤ Natural.wordLimit)
    (hsound : ∀ edge ∈ graph.edges, edge.Sound graph.nodeCount) :
    graph.SpelledBy (headerTokens graph :: graph.edges.map edgeTokens) := by
  refine ⟨headerTokens graph, graph.edges.map edgeTokens, graph.edgeCount, ?_,
    isHeader_headerTokens hnodes hedges, List.length_map _, ?_⟩
  · apply List.filter_eq_self.mpr
    simp [headerTokens, edgeTokens]
  · rw [List.forall₂_map_left_iff, List.forall₂_same]
    exact fun edge hmem => isEdge_edgeTokens hnodes (hsound edge hmem)

/-- A written graph whose edges are sound is read back. -/
theorem read_render_of_sound (hnodes : graph.nodeCount ≤ Natural.wordLimit)
    (hedges : graph.edgeCount ≤ Natural.wordLimit)
    (hsound : ∀ edge ∈ graph.edges, edge.Sound graph.nodeCount) :
    read (Input.ofBytes (Text.encode graph.render)) = .ok graph := by
  rw [read, readFrom_eq_ok_iff, ofBytes_render]
  refine ⟨_, ?_, spelledBy_tokens hnodes hedges hsound⟩
  rw [List.forall₂_map_left_iff, List.forall₂_same]
  intro tokens hmem
  exact ⟨spaced tokens, rfl, Text.words_spaced (isToken_tokens graph tokens hmem)⟩

/-- A fault in the body of a written graph ends reading. -/
theorem read_render_of_readBody {fault : Fault} (hnodes : graph.nodeCount ≤ Natural.wordLimit)
    (hedges : graph.edgeCount ≤ Natural.wordLimit)
    (hbody : readBody graph.nodeCount graph.edgeCount 2 0
      (graph.edges.map fun edge => .ok (spaced (edgeTokens edge))) = .error fault) :
    read (Input.ofBytes (Text.encode graph.render)) = .error fault := by
  have hheader : readHeader 1 (headerTokens graph) = .ok (graph.nodeCount, graph.edgeCount) :=
    readHeader_eq_ok_iff.mpr (isHeader_headerTokens hnodes hedges)
  rw [read, ofBytes_render, List.map_cons, List.map_map, readFrom,
    Text.words_spaced (isToken_headerTokens graph)]
  change (readHeader 1 (headerTokens graph) >>= _) = _
  rw [hheader]
  change (readBody graph.nodeCount graph.edgeCount 2 0 _ >>= _) = _
  rw [Function.comp_def, hbody]
  rfl

end Written

/-- What reading a written graph gives: the graph itself if all edges are sound, and
otherwise the fault of the first edge that is not, in the line of that edge. -/
theorem read_render (graph : Graph Float) (hwords : graph.FitsWords) :
    ((∀ edge ∈ graph.edges, edge.Sound graph.nodeCount) →
        read (Input.ofBytes (Text.encode graph.render)) = .ok graph) ∧
      ((¬∀ edge ∈ graph.edges, edge.Sound graph.nodeCount) →
        ∃ before edge after fault, graph.edges = before ++ edge :: after ∧
          (∀ earlier ∈ before, earlier.Sound graph.nodeCount) ∧
          edge.Rejected graph.nodeCount (before.length + 2) fault ∧
          read (Input.ofBytes (Text.encode graph.render)) = .error fault) := by
  refine ⟨read_render_of_sound hwords.nodeCount_le hwords.edgeCount_le, ?_⟩
  intro hunsound
  obtain ⟨before, edge, after, hsplit, hbefore, hedge⟩ := exists_first_not hunsound
  obtain ⟨fault, hrejected⟩ := Edge.exists_rejected hedge (before.length + 2)
  obtain ⟨hsource, htarget⟩ := hwords.ends_le edge (by simp [hsplit])
  refine ⟨before, edge, after, fault, hsplit, hbefore, hrejected,
    read_render_of_readBody hwords.nodeCount_le hwords.edgeCount_le ?_⟩
  have hlength : 0 + before.length < graph.edgeCount := by
    rw [edgeCount, hsplit, List.length_append, List.length_cons]
    omega
  rw [Nat.add_comm] at hrejected
  rw [hsplit]
  exact readBody_of_rejected hwords.nodeCount_le hsource htarget hlength hbefore hrejected

/-- A graph with a loop between a sound edge and one that leaves the graph. -/
def looped : Graph Float :=
  ⟨3, [⟨0, 1, 0.5⟩, ⟨2, 2, 0.25⟩, ⟨7, 1, 1⟩]⟩

def unlooped : Graph Float :=
  ⟨3, [⟨0, 1, 0.5⟩]⟩

/-- The loop is named by its line.  Without the two bad edges the graph is read back. -/
theorem read_render_looped :
    looped.FitsWords ∧ (¬∀ edge ∈ looped.edges, edge.Sound looped.nodeCount) ∧
      read (Input.ofBytes (Text.encode looped.render)) = .error (.selfLoop 3 2) ∧
      unlooped.FitsWords ∧ (∀ edge ∈ unlooped.edges, edge.Sound unlooped.nodeCount) ∧
      unlooped.render = "3 1\n0 1 0.5\n" ∧
      read (Input.ofBytes (Text.encode unlooped.render)) = .ok unlooped := by
  have hsound : ∀ edge ∈ unlooped.edges, edge.Sound unlooped.nodeCount := by
    simp only [unlooped, List.mem_singleton, forall_eq]
    exact ⟨by decide, by decide, by decide, by decide +kernel⟩
  have hfits : unlooped.FitsWords := ⟨by decide, by decide, by decide⟩
  have hwords : looped.FitsWords := ⟨by decide, by decide, by decide⟩
  have hunsound : ¬∀ edge ∈ looped.edges, edge.Sound looped.nodeCount :=
    fun hsound => (hsound _ (List.mem_of_getElem? (show looped.edges[1]? = _ from rfl))).ne rfl
  refine ⟨hwords, hunsound, ?_, hfits, hsound, by decide +kernel,
    (read_render unlooped hfits).1 hsound⟩
  obtain ⟨before, edge, after, fault, hsplit, hbefore, hrejected, hread⟩ :=
    (read_render looped hwords).2 hunsound
  rw [hread]
  simp only [looped] at hsplit hbefore hrejected
  match before with
  | [] =>
      obtain ⟨rfl, -⟩ := List.cons.inj hsplit
      cases hrejected with
      | source hsource => exact absurd hsource (by decide)
      | target hsource htarget => exact absurd htarget (by decide)
      | loop hsource htarget heq => exact absurd heq (by decide)
      | weight hsource htarget hne hweight => exact absurd hweight (by decide +kernel)
  | [first] =>
      obtain ⟨rfl, hrest⟩ := List.cons.inj hsplit
      obtain ⟨rfl, -⟩ := List.cons.inj hrest
      cases hrejected with
      | source hsource => exact absurd hsource (by decide)
      | target hsource htarget => exact absurd htarget (by decide)
      | loop hsource htarget heq => rfl
      | weight hsource htarget hne hweight => exact absurd rfl hne
  | first :: second :: rest =>
      obtain ⟨rfl, hrest⟩ := List.cons.inj hsplit
      obtain ⟨rfl, -⟩ := List.cons.inj hrest
      exact absurd rfl (hbefore ⟨2, 2, 0.25⟩ (by simp)).ne

end Graph

end AverageLinkage
