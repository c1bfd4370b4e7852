import Mathlib
import AverageLinkage.Proofs.FirstFault

/-!
# Faults of graphs in text

Which fault a line has is said by the line and by those before it: before the first line
that is not blank a line is to be a header, behind it an edge as long as edges are missing.
Reading ends with the fault of the earliest line that has one.  Only if there is none do
the lines as a whole count: they must hold a header and as many edges as it declares.
-/

namespace AverageLinkage.Graph

open LineView (filled isBlank)

/-- The fault in the words of a header: their number, or the first one that is no number. -/
inductive HeaderFault (line : Nat) : List (List Char) → Fault → Prop
  | fieldCount {tokens : List (List Char)} (hcount : tokens.length ≠ 2) :
      HeaderFault line tokens (.fieldCount line 2 tokens.length)
  | nodes {nodes edges : List Char} (hnodes : Natural.read? Natural.wordLimit nodes = none) :
      HeaderFault line [nodes, edges] (.invalidInteger line (String.ofList nodes))
  | edges {nodes edges : List Char} {nodeCount : Nat}
      (hnodes : Natural.read? Natural.wordLimit nodes = some nodeCount)
      (hedges : Natural.read? Natural.wordLimit edges = none) :
      HeaderFault line [nodes, edges] (.invalidInteger line (String.ofList edges))

/-- Two words for different nodes of the graph. -/
def AreEnds (nodeCount : Nat) (first second : List Char) : Prop :=
  ∃ source target, Natural.read? Natural.wordLimit first = some source ∧
    Natural.read? Natural.wordLimit second = some target ∧
    source < nodeCount ∧ target < nodeCount ∧ source ≠ target

/-- The fault in the words of an edge: that of the first check which they fail. -/
inductive EdgeFault (nodeCount line : Nat) : List (List Char) → Fault → Prop
  | fieldCount {tokens : List (List Char)} (hcount : tokens.length ≠ 3) :
      EdgeFault nodeCount line tokens (.fieldCount line 3 tokens.length)
  | source {first second third : List Char}
      (hfirst : Natural.read? Natural.wordLimit first = none) :
      EdgeFault nodeCount line [first, second, third]
        (.invalidInteger line (String.ofList first))
  | target {first second third : List Char} {source : Nat}
      (hfirst : Natural.read? Natural.wordLimit first = some source)
      (hsecond : Natural.read? Natural.wordLimit second = none) :
      EdgeFault nodeCount line [first, second, third]
        (.invalidInteger line (String.ofList second))
  | sourceRange {first second third : List Char} {source target : Nat}
      (hfirst : Natural.read? Natural.wordLimit first = some source)
      (hsecond : Natural.read? Natural.wordLimit second = some target)
      (hsource : nodeCount ≤ source) :
      EdgeFault nodeCount line [first, second, third] (.nodeOutOfRange line source nodeCount)
  | targetRange {first second third : List Char} {source target : Nat}
      (hfirst : Natural.read? Natural.wordLimit first = some source)
      (hsecond : Natural.read? Natural.wordLimit second = some target)
      (hsource : source < nodeCount) (htarget : nodeCount ≤ target) :
      EdgeFault nodeCount line [first, second, third] (.nodeOutOfRange line target nodeCount)
  | loop {first second third : List Char} {node : Nat}
      (hfirst : Natural.read? Natural.wordLimit first = some node)
      (hsecond : Natural.read? Natural.wordLimit second = some node) (hnode : node < nodeCount) :
      EdgeFault nodeCount line [first, second, third] (.selfLoop line node)
  | weight {first second third : List Char} (hends : AreEnds nodeCount first second)
      (hthird : Decimal.read? third = none) :
      EdgeFault nodeCount line [first, second, third] (.invalidWeight line (String.ofList third))
  | nonFinite {first second third : List Char} {weight : Float}
      (hends : AreEnds nodeCount first second) (hthird : Decimal.read? third = some weight)
      (hweight : weight.isFinite = false) :
      EdgeFault nodeCount line [first, second, third] (.nonFiniteWeight line weight)

/-- The lines begin with a header, possibly behind blank ones, and `found` lines behind it
are not blank. -/
def HeaderRead (views : List LineView) (nodeCount declared found : Nat) : Prop :=
  ∃ header body, views.dropWhile isBlank = .ok header :: body ∧
    IsHeader header nodeCount declared ∧ (filled body).length = found

/-- The fault of a line behind the lines `before`.  Lines are counted from one. -/
inductive LineFault (before : List LineView) : LineView → Fault → Prop
  | unreadable {cause : SystemFault} : LineFault before (.error cause) (.unreadable cause)
  | header {tokens : List (List Char)} {fault : Fault}
      (hblank : ∀ view ∈ before, view = .ok []) (htokens : tokens ≠ [])
      (hfault : HeaderFault (before.length + 1) tokens fault) :
      LineFault before (.ok tokens) fault
  | edge {tokens : List (List Char)} {fault : Fault} {nodeCount declared found : Nat}
      (hheader : HeaderRead before nodeCount declared found) (hmissing : found < declared)
      (htokens : tokens ≠ []) (hfault : EdgeFault nodeCount (before.length + 1) tokens fault) :
      LineFault before (.ok tokens) fault

/-- The fault of lines without faults of their own: there is no header, or it declares
another number of edges than lines follow it. -/
inductive CountFault (views : List LineView) : Fault → Prop
  | missingHeader (hblank : ∀ view ∈ views, view = .ok []) : CountFault views .missingHeader
  | mismatch {nodeCount declared actual : Nat}
      (hheader : HeaderRead views nodeCount declared actual) (hcount : actual ≠ declared) :
      CountFault views (.edgeCountMismatch declared actual)

/-- Why the lines behind `before` make all of them no graph: the first of them with a fault,
or their number. -/
def Fails (before views : List LineView) (fault : Fault) : Prop :=
  FirstFault LineFault before views fault ∨
    Faultless LineFault before views ∧ CountFault (before ++ views) fault

/-! ## Single lines -/

/-- The one fault of a number quotes the word. -/
theorem readNatural_eq_error_iff {line : Nat} {token : List Char} {fault : Fault} :
    readNatural line token = .error fault ↔
      Natural.read? Natural.wordLimit token = none ∧
        .invalidInteger line (String.ofList token) = fault := by
  rw [readNatural]
  cases Natural.read? Natural.wordLimit token <;> simp

theorem readWeight_eq_error_iff {line : Nat} {token : List Char} {fault : Fault} :
    readWeight line token = .error fault ↔
      (Decimal.read? token = none ∧ .invalidWeight line (String.ofList token) = fault) ∨
        ∃ weight, Decimal.read? token = some weight ∧ weight.isFinite = false ∧
          .nonFiniteWeight line weight = fault := by
  rw [readWeight]
  cases Decimal.read? token with
  | none => simp
  | some weight => cases hweight : weight.isFinite <;> simp [hweight]

/-- The checks of the ends in their order: the source, the target, and then that they differ. -/
theorem checkEnds_eq_error_iff {nodeCount line source target : Nat} {fault : Fault} :
    checkEnds nodeCount line source target = .error fault ↔
      (nodeCount ≤ source ∧ .nodeOutOfRange line source nodeCount = fault) ∨
      (source < nodeCount ∧ nodeCount ≤ target ∧ .nodeOutOfRange line target nodeCount = fault) ∨
      (source < nodeCount ∧ source = target ∧ .selfLoop line source = fault) := by
  rw [checkEnds]
  split
  · next hsource => simp [hsource, hsource.not_gt]
  · next hsource =>
      have hsource := Nat.lt_of_not_le hsource
      split
      · next htarget =>
          have hne : source ≠ target := by omega
          simp [hsource, hsource.not_ge, htarget, hne]
      · next htarget =>
          split
          · next heq =>
              subst heq
              simp [hsource, hsource.not_ge]
          · next hne => simp [hsource.not_ge, htarget, hne]

/-- Reading a header fails exactly with the fault of its words. -/
theorem readHeader_eq_error_iff {line : Nat} {tokens : List (List Char)} {fault : Fault} :
    readHeader line tokens = .error fault ↔ HeaderFault line tokens fault := by
  rw [readHeader.eq_def]
  split
  · next nodes edges =>
      simp only [bind_eq_error_iff, readNatural_eq_error_iff, readNatural_eq_ok_iff]
      constructor
      · rintro (⟨hnodes, rfl⟩ | ⟨nodeCount, hnodes, ⟨hedges, rfl⟩ | ⟨_, _, hresult⟩⟩)
        · exact .nodes hnodes
        · exact .edges hnodes hedges
        · cases hresult
      · rintro (hcount | hnodes | ⟨hnodes, hedges⟩)
        · exact absurd rfl hcount
        · exact .inl ⟨hnodes, rfl⟩
        · exact .inr ⟨_, hnodes, .inl ⟨hedges, rfl⟩⟩
  · next hshape =>
      have hcount : tokens.length ≠ 2 := by
        intro hcount
        obtain ⟨nodes, edges, rfl⟩ := List.length_eq_two.mp hcount
        exact hshape nodes edges rfl
      constructor
      · intro hresult
        obtain rfl := Except.error.inj hresult
        exact .fieldCount hcount
      · rintro (_ | _ | _)
        · rfl
        · exact absurd rfl hcount
        · exact absurd rfl hcount

/-- Reading an edge fails exactly with the fault of its words. -/
theorem readEdge_eq_error_iff {nodeCount line : Nat} {tokens : List (List Char)} {fault : Fault} :
    readEdge nodeCount line tokens = .error fault ↔ EdgeFault nodeCount line tokens fault := by
  rw [readEdge.eq_def]
  split
  · next first second third =>
      simp only [bind_eq_error_iff, readNatural_eq_error_iff, readNatural_eq_ok_iff,
        checkEnds_eq_error_iff, checkEnds_eq_ok_iff, readWeight_eq_error_iff]
      constructor
      · rintro (⟨hfirst, rfl⟩ | ⟨source, hfirst, ⟨hsecond, rfl⟩ | ⟨target, hsecond, hrest⟩⟩)
        · exact .source hfirst
        · exact .target hfirst hsecond
        · obtain (⟨hsource, rfl⟩ | ⟨hsource, htarget, rfl⟩ | ⟨hsource, rfl, rfl⟩) |
            ⟨_, ⟨hsource, htarget, hne⟩, hweight⟩ := hrest
          · exact .sourceRange hfirst hsecond hsource
          · exact .targetRange hfirst hsecond hsource htarget
          · exact .loop hfirst hsecond hsource
          · have hends : AreEnds nodeCount first second :=
              ⟨source, target, hfirst, hsecond, hsource, htarget, hne.symm⟩
            obtain (⟨hthird, rfl⟩ | ⟨weight, hthird, hweight, rfl⟩) | ⟨_, _, hresult⟩ := hweight
            · exact .weight hends hthird
            · exact .nonFinite hends hthird hweight
            · cases hresult
      · rintro (hcount | hfirst | ⟨hfirst, hsecond⟩ | ⟨hfirst, hsecond, hsource⟩ |
          ⟨hfirst, hsecond, hsource, htarget⟩ | ⟨hfirst, hsecond, hnode⟩ |
          ⟨⟨source, target, hfirst, hsecond, hsource, htarget, hne⟩, hthird⟩ |
          ⟨⟨source, target, hfirst, hsecond, hsource, htarget, hne⟩, hthird, hweight⟩)
        · exact absurd rfl hcount
        · exact .inl ⟨hfirst, rfl⟩
        · exact .inr ⟨_, hfirst, .inl ⟨hsecond, rfl⟩⟩
        · exact .inr ⟨_, hfirst, .inr ⟨_, hsecond, .inl (.inl ⟨hsource, rfl⟩)⟩⟩
        · exact .inr ⟨_, hfirst, .inr ⟨_, hsecond, .inl (.inr (.inl ⟨hsource, htarget, rfl⟩))⟩⟩
        · exact .inr ⟨_, hfirst, .inr ⟨_, hsecond, .inl (.inr (.inr ⟨hnode, rfl, rfl⟩))⟩⟩
        · exact .inr ⟨_, hfirst, .inr ⟨_, hsecond, .inr ⟨(), ⟨hsource, htarget, hne.symm⟩,
            .inl (.inl ⟨hthird, rfl⟩)⟩⟩⟩
        · exact .inr ⟨_, hfirst, .inr ⟨_, hsecond, .inr ⟨(), ⟨hsource, htarget, hne.symm⟩,
            .inl (.inr ⟨_, hthird, hweight, rfl⟩)⟩⟩⟩
  · next hshape =>
      have hcount : tokens.length ≠ 3 := by
        intro hcount
        obtain ⟨first, second, third, rfl⟩ := List.length_eq_three.mp hcount
        exact hshape first second third rfl
      constructor
      · intro hresult
        obtain rfl := Except.error.inj hresult
        exact .fieldCount hcount
      · rintro (_ | _ | _ | _ | _ | _ | _ | _)
        · rfl
        all_goals exact absurd rfl hcount

/-! ## Lines behind others -/

section Lines

variable {before rest : List LineView} {view : LineView} {token : List Char}
  {tokens : List (List Char)} {nodeCount declared found : Nat} {cause : SystemFault} {fault : Fault}

theorem IsHeader.unique {nodeCount' declared' : Nat} (hheader : IsHeader tokens nodeCount declared)
    (hother : IsHeader tokens nodeCount' declared') :
    nodeCount' = nodeCount ∧ declared' = declared := by
  have hread : readHeader 0 tokens = .ok (nodeCount, declared) := readHeader_eq_ok_iff.mpr hheader
  rw [readHeader_eq_ok_iff.mpr hother] at hread
  exact Prod.mk.inj (Except.ok.inj hread)

theorem IsHeader.isBlank (hheader : IsHeader tokens nodeCount declared) :
    LineView.isBlank (.ok tokens) = false := by
  obtain ⟨nodes, edges, rfl, -⟩ := hheader
  rfl

/-- A header is read in one way only. -/
theorem HeaderRead.unique {nodeCount' declared' found' : Nat}
    (hheader : HeaderRead before nodeCount declared found)
    (hother : HeaderRead before nodeCount' declared' found') :
    nodeCount' = nodeCount ∧ declared' = declared ∧ found' = found := by
  obtain ⟨header, body, hdrop, hheader, rfl⟩ := hheader
  obtain ⟨header', body', hdrop', hheader', rfl⟩ := hother
  obtain ⟨hsame, rfl⟩ := List.cons.inj (hdrop.symm.trans hdrop')
  obtain rfl := Except.ok.inj hsame
  obtain ⟨rfl, rfl⟩ := hheader.unique hheader'
  exact ⟨rfl, rfl, rfl⟩

theorem dropWhile_of_blank (hblank : ∀ view ∈ before, view = .ok []) :
    before.dropWhile isBlank = [] := by
  rw [List.dropWhile_eq_nil_iff]
  intro view hview
  rw [hblank view hview]
  rfl

theorem not_headerRead_of_blank (hblank : ∀ view ∈ before, view = .ok []) :
    ¬HeaderRead before nodeCount declared found := by
  rintro ⟨header, body, hdrop, -⟩
  rw [dropWhile_of_blank hblank] at hdrop
  contradiction

theorem HeaderRead.append (hheader : HeaderRead before nodeCount declared found)
    (views : List LineView) :
    HeaderRead (before ++ views) nodeCount declared (found + (filled views).length) := by
  obtain ⟨header, body, hdrop, hheader, rfl⟩ := hheader
  refine ⟨header, body ++ views, ?_, hheader, by simp [filled]⟩
  rw [List.dropWhile_append, hdrop]
  rfl

theorem HeaderRead.append_blank (hheader : HeaderRead before nodeCount declared found) :
    HeaderRead (before ++ [.ok []]) nodeCount declared found :=
  hheader.append [.ok []]

theorem HeaderRead.append_words (hheader : HeaderRead before nodeCount declared found) :
    HeaderRead (before ++ [.ok (token :: tokens)]) nodeCount declared (found + 1) :=
  hheader.append [.ok (token :: tokens)]

theorem headerRead_of_blank (hblank : ∀ view ∈ before, view = .ok [])
    (hheader : IsHeader tokens nodeCount declared) :
    HeaderRead (before ++ [.ok tokens]) nodeCount declared 0 := by
  refine ⟨tokens, [], ?_, hheader, rfl⟩
  rw [List.dropWhile_append, dropWhile_of_blank hblank]
  simp [hheader.isBlank]

theorem lineFault_error_iff :
    LineFault before (.error cause) fault ↔ fault = .unreadable cause := by
  constructor
  · rintro (_ | _ | _)
    rfl
  · rintro rfl
    exact .unreadable

theorem not_lineFault_blank : ¬LineFault before (.ok []) fault := by
  rintro (_ | ⟨-, htokens, -⟩ | ⟨-, -, htokens, -⟩)
  · exact htokens rfl
  · exact htokens rfl

/-- Behind blank lines a line is taken for the header. -/
theorem lineFault_header_iff (hblank : ∀ view ∈ before, view = .ok []) :
    LineFault before (.ok (token :: tokens)) fault ↔
      HeaderFault (before.length + 1) (token :: tokens) fault := by
  constructor
  · rintro (_ | ⟨-, -, hfault⟩ | ⟨hheader, -, -, -⟩)
    · exact hfault
    · exact absurd hheader (not_headerRead_of_blank hblank)
  · exact .header hblank (List.cons_ne_nil token tokens)

/-- Behind a header a line can have a fault only while edges are missing. -/
theorem lineFault_edge_iff (hheader : HeaderRead before nodeCount declared found) :
    LineFault before (.ok (token :: tokens)) fault ↔
      found < declared ∧ EdgeFault nodeCount (before.length + 1) (token :: tokens) fault := by
  constructor
  · rintro (_ | ⟨hblank, -, -⟩ | ⟨hother, hmissing, -, hfault⟩)
    · exact absurd hheader (not_headerRead_of_blank hblank)
    · obtain ⟨rfl, rfl, rfl⟩ := hheader.unique hother
      exact ⟨hmissing, hfault⟩
  · rintro ⟨hmissing, hfault⟩
    exact .edge hheader hmissing (List.cons_ne_nil token tokens) hfault

theorem countFault_of_blank_iff (hblank : ∀ view ∈ before, view = .ok []) :
    CountFault before fault ↔ .missingHeader = fault := by
  constructor
  · rintro (_ | ⟨hheader, -⟩)
    · rfl
    · exact absurd hheader (not_headerRead_of_blank hblank)
  · rintro rfl
    exact .missingHeader hblank

/-- After the last line the number of edges is compared with the declared one. -/
theorem countFault_of_headerRead_iff (hheader : HeaderRead before nodeCount declared found) :
    CountFault before fault ↔ found ≠ declared ∧ .edgeCountMismatch declared found = fault := by
  constructor
  · rintro (hblank | ⟨hother, hcount⟩)
    · exact absurd hheader (not_headerRead_of_blank hblank)
    · obtain ⟨rfl, rfl, rfl⟩ := hheader.unique hother
      exact ⟨hcount, rfl⟩
  · rintro ⟨hcount, rfl⟩
    exact .mismatch hheader hcount

/-- The fault of the first line comes before all others. -/
theorem fails_cons_iff :
    Fails before (view :: rest) fault ↔
      LineFault before view fault ∨
        (∀ other, ¬LineFault before view other) ∧ Fails (before ++ [view]) rest fault := by
  rw [Fails, Fails, firstFault_cons_iff, faultless_cons_iff, ← List.append_cons]
  tauto

theorem fails_cons_of_faultless (hview : ∀ other, ¬LineFault before view other) :
    Fails before (view :: rest) fault ↔ Fails (before ++ [view]) rest fault := by
  rw [fails_cons_iff, or_iff_right (hview fault)]
  exact and_iff_right hview

end Lines

/-! ## All lines -/

section Reading

variable {before : List LineView} {nodeCount declared found : Nat} {input : Input} {fault : Fault}

/-- Behind a header, reading ends with the fault of the first line that has one. -/
theorem readBody_eq_error_iff (hheader : HeaderRead before nodeCount declared found) :
    readBody nodeCount declared (before.length + 1) found input = .error fault ↔
      FirstFault LineFault before input.views fault := by
  -- the lines before grow by the line that is read, so that its number is known at every step
  induction input generalizing before found with
  | nil => simp [readBody]
  | cons item rest ih =>
      cases item with
      | error cause =>
          rw [readBody, Input.views_error,
            firstFault_cons_of_faulty fun _ => lineFault_error_iff, Except.error.injEq, eq_comm]
      | ok text =>
          rw [Input.views_ok]
          cases hline : Text.words text with
          | nil =>
              rw [readBody, hline, firstFault_cons_of_faultless fun _ => not_lineFault_blank,
                ← ih hheader.append_blank, List.length_append]
              rfl
          | cons token tokens =>
              have hnext : HeaderRead (before ++ [.ok (token :: tokens)]) nodeCount declared
                  (found + 1) := hheader.append_words
              have hrest := ih hnext
              rw [List.length_append, List.length_singleton] at hrest
              by_cases hmissing : found < declared
              · rw [readBody_edge hline hmissing,
                  sequence_eq_error_iff (fun _ _ _ hresult => by cases hresult), hrest,
                  firstFault_cons_iff]
                simp only [lineFault_edge_iff hheader, hmissing, true_and, readEdge_eq_error_iff,
                  ne_eq]
              · -- a line beyond the declared number is only counted
                have hextra : ∀ other, ¬LineFault before (.ok (token :: tokens)) other :=
                  fun other hfault => hmissing ((lineFault_edge_iff hheader).mp hfault).1
                rw [readBody_extra hline (Nat.le_of_not_lt hmissing),
                  firstFault_cons_of_faultless hextra, hrest]

theorem views_of_hasWords {words : List (List (List Char))}
    (hwords : List.Forall₂ HasWords input words) : input.views = words.map .ok := by
  induction hwords with
  | nil => rfl
  | cons hitem _ ih =>
      obtain ⟨text, rfl, rfl⟩ := hitem
      rw [Input.views_ok, ih, List.map_cons]

theorem length_filled_map (words : List (List (List Char))) :
    (filled (words.map .ok)).length = (nonblank words).length := by
  have hblank : ∀ tokens : List (List Char), isBlank (.ok tokens) = tokens.isEmpty := by
    intro tokens
    cases tokens <;> rfl
  simp [filled, nonblank, List.filter_map, Function.comp_def, hblank]

/-- A body that was read up to its end accounts for all lines. -/
theorem HeaderRead.append_views {line total : Nat} {edges : List (Edge Float)}
    (hheader : HeaderRead before nodeCount declared found)
    (hbody : readBody nodeCount declared line found input = .ok (edges, total)) :
    HeaderRead (before ++ input.views) nodeCount declared total := by
  obtain ⟨words, hwords, rfl, -⟩ := readBody_eq_ok_iff.mp hbody
  rw [views_of_hasWords hwords, ← length_filled_map]
  exact hheader.append _

/-- Behind a header, a graph fails by a line of its body or by their number. -/
theorem finishBody_eq_error_iff (hheader : HeaderRead before nodeCount declared found) :
    (do
      let (edges, total) ← readBody nodeCount declared (before.length + 1) found input
      if total = declared then return { nodeCount, edges }
      else throw (.edgeCountMismatch declared total) : Except Fault (Graph Float)) = .error fault ↔
      Fails before input.views fault := by
  have hfirst (other : Fault) :
      readBody nodeCount declared (before.length + 1) found input = .error other ↔
        FirstFault LineFault before input.views other := readBody_eq_error_iff hheader
  rw [Fails, faultless_iff_not_firstFault]
  simp only [← hfirst]
  cases hbody : readBody nodeCount declared (before.length + 1) found input with
  | error cause => simp [bind, Except.bind]
  | ok result =>
      obtain ⟨edges, total⟩ := result
      rw [countFault_of_headerRead_iff (hheader.append_views hbody)]
      by_cases hcount : total = declared
      · simp [hcount, bind, Except.bind, pure, Except.pure]
      · simp [hcount, bind, Except.bind, throw, throwThe, MonadExceptOf.throw]

/-- Behind blank lines, reading fails as the lines do. -/
theorem readFrom_eq_error_iff (hblank : ∀ view ∈ before, view = .ok []) :
    readFrom (before.length + 1) input = .error fault ↔ Fails before input.views fault := by
  induction input generalizing before with
  | nil => simp [readFrom, Fails, countFault_of_blank_iff hblank]
  | cons item rest ih =>
      cases item with
      | error cause =>
          rw [readFrom, Input.views_error, fails_cons_iff]
          simp only [lineFault_error_iff]
          simp [eq_comm]
      | ok text =>
          rw [Input.views_ok]
          cases hline : Text.words text with
          | nil =>
              have hnext : ∀ view ∈ before ++ [.ok []], view = .ok [] := by
                simpa [or_imp, forall_and] using hblank
              rw [readFrom, hline, fails_cons_of_faultless fun _ => not_lineFault_blank, ← ih hnext,
                List.length_append]
              rfl
          | cons token tokens =>
              have hfault (other : Fault) : LineFault before (.ok (token :: tokens)) other ↔
                  readHeader (before.length + 1) (token :: tokens) = .error other := by
                rw [lineFault_header_iff hblank, readHeader_eq_error_iff]
              simp only [readFrom, hline]
              cases hheader : readHeader (before.length + 1) (token :: tokens) with
              | error cause =>
                  rw [fails_cons_iff]
                  simp only [hfault, hheader]
                  simp [bind, Except.bind]
              | ok header =>
                  obtain ⟨nodeCount, declared⟩ := header
                  have hread := headerRead_of_blank hblank (readHeader_eq_ok_iff.mp hheader)
                  rw [fails_cons_of_faultless (by simp [hfault, hheader]),
                    ← finishBody_eq_error_iff hread, List.length_append]
                  rfl

end Reading

/-- Reading fails with the fault of the earliest line that has one, whatever the later lines
hold.  Without such a line it fails if there is no header or the header declares another number
of edges than there are lines behind it, and in no other case. -/
theorem read_eq_error_iff_firstFault (bytes : Text.Bytes) (fault : Fault) :
    read (Input.ofBytes bytes) = .error fault ↔
      ∃ lines views, Text.Lines bytes lines ∧ List.Forall₂ Text.ViewOf lines views ∧
        (FirstFault LineFault [] views fault ∨
          Faultless LineFault [] views ∧ CountFault views fault) := by
  have hblank : ∀ view ∈ ([] : List LineView), view = .ok [] := by simp
  rw [Text.exists_views_iff]
  exact readFrom_eq_error_iff hblank

end AverageLinkage.Graph
