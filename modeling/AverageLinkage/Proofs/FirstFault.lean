import Mathlib
import AverageLinkage.Proofs.GraphGrammar

/-!
# First faults

A reader goes through its items in order and ends at the first one with a fault.  Which
fault an item has may hang on the items before it, as a line of a graph is a header or an
edge by what came before.  The first fault of a sequence is described here by its place,
and one equation for a sequence that begins with an item takes the description along with
a reader.
-/

namespace AverageLinkage

/-! ## Results that are faults -/

section Results

variable {Fault Value Result : Type}

theorem bind_eq_error_iff {first : Except Fault Value} {next : Value → Except Fault Result}
    {fault : Fault} :
    first >>= next = .error fault ↔
      first = .error fault ∨ ∃ value, first = .ok value ∧ next value = .error fault := by
  cases first with
  | error cause => simp [bind, Except.bind]
  | ok value => simp [bind, Except.bind]

theorem exists_eq_ok_iff {result : Except Fault Value} :
    (∃ value, result = .ok value) ↔ ∀ fault, result ≠ .error fault := by
  cases result with
  | error cause => simp
  | ok value => simp

/-- The fault of two results in a row, if nothing can fail behind them. -/
theorem sequence_eq_error_iff {Other : Type} {first : Except Fault Value}
    {second : Except Fault Other} {last : Value → Other → Except Fault Result}
    (hlast : ∀ value other fault, last value other ≠ .error fault) {fault : Fault} :
    (first >>= fun value => second >>= last value) = .error fault ↔
      first = .error fault ∨ (∀ cause, first ≠ .error cause) ∧ second = .error fault := by
  cases first with
  | error cause => simp [bind, Except.bind]
  | ok value =>
      cases second with
      | error cause => simp [bind, Except.bind]
      | ok other => simp [bind, Except.bind, hlast]

end Results

/-! ## Sequences of items -/

section Items

variable {Item Fault : Type} {Faulty : List Item → Item → Fault → Prop}
  {before rest : List Item} {item : Item} {fault : Fault}

/-- No item has a fault.  `Faulty` tells the faults of an item behind those before it, and
all items stand behind `before`. -/
def Faultless (Faulty : List Item → Item → Fault → Prop) (before items : List Item) : Prop :=
  ∀ front item back, items = front ++ item :: back → ∀ fault, ¬Faulty (before ++ front) item fault

/-- An item has the fault, and the items before it have none. -/
def FirstFault (Faulty : List Item → Item → Fault → Prop) (before items : List Item)
    (fault : Fault) : Prop :=
  ∃ front item back, items = front ++ item :: back ∧ Faultless Faulty before front ∧
    Faulty (before ++ front) item fault

@[simp]
theorem faultless_nil : Faultless Faulty before [] := by
  intro front item back hsplit
  simp at hsplit

@[simp]
theorem not_firstFault_nil : ¬FirstFault Faulty before [] fault := by
  rintro ⟨front, item, back, hsplit, -⟩
  simp at hsplit

theorem faultless_cons_iff :
    Faultless Faulty before (item :: rest) ↔
      (∀ fault, ¬Faulty before item fault) ∧ Faultless Faulty (before ++ [item]) rest := by
  constructor
  · intro hnone
    refine ⟨fun fault => by simpa using hnone [] item rest rfl fault, ?_⟩
    intro front later back hsplit fault
    simpa using hnone (item :: front) later back (by simp [hsplit]) fault
  · rintro ⟨hitem, hrest⟩ front later back hsplit fault
    cases front with
    | nil =>
        obtain ⟨rfl, -⟩ := List.cons.inj hsplit
        simpa using hitem fault
    | cons first front =>
        obtain ⟨rfl, hback⟩ := List.cons.inj hsplit
        simpa using hrest front later back hback fault

/-- The first fault is that of the first item, or this item has none. -/
theorem firstFault_cons_iff :
    FirstFault Faulty before (item :: rest) fault ↔
      Faulty before item fault ∨
        (∀ other, ¬Faulty before item other) ∧ FirstFault Faulty (before ++ [item]) rest fault := by
  constructor
  · rintro ⟨front, later, back, hsplit, hfront, hfault⟩
    cases front with
    | nil =>
        obtain ⟨rfl, -⟩ := List.cons.inj hsplit
        exact .inl (by simpa using hfault)
    | cons first front =>
        obtain ⟨rfl, hback⟩ := List.cons.inj hsplit
        obtain ⟨hitem, hfront⟩ := faultless_cons_iff.mp hfront
        exact .inr ⟨hitem, front, later, back, hback, hfront, by simpa using hfault⟩
  · rintro (hfault | ⟨hitem, front, later, back, rfl, hfront, hfault⟩)
    · exact ⟨[], item, rest, rfl, faultless_nil, by simpa using hfault⟩
    · exact ⟨item :: front, later, back, rfl, faultless_cons_iff.mpr ⟨hitem, hfront⟩,
        by simpa using hfault⟩

/-- If the first item has a fault, it is the first fault. -/
theorem firstFault_cons_of_faulty (hunique : ∀ other, Faulty before item other ↔ other = fault)
    {other : Fault} : FirstFault Faulty before (item :: rest) other ↔ other = fault := by
  rw [firstFault_cons_iff, hunique]
  refine or_iff_left ?_
  rintro ⟨hnone, -⟩
  exact hnone fault ((hunique fault).mpr rfl)

/-- An item without a fault is passed over. -/
theorem firstFault_cons_of_faultless (hitem : ∀ other, ¬Faulty before item other) :
    FirstFault Faulty before (item :: rest) fault ↔
      FirstFault Faulty (before ++ [item]) rest fault := by
  rw [firstFault_cons_iff, or_iff_right (hitem fault)]
  exact and_iff_right hitem

/-- Without a first fault there is none at all. -/
theorem faultless_iff_not_firstFault :
    Faultless Faulty before rest ↔ ∀ fault, ¬FirstFault Faulty before rest fault := by
  induction rest generalizing before with
  | nil => simp
  | cons item rest ih =>
      simp only [faultless_cons_iff, firstFault_cons_iff, not_or, not_and]
      constructor
      · rintro ⟨hitem, hrest⟩ fault
        exact ⟨hitem fault, fun _ => ih.mp hrest fault⟩
      · intro hnone
        have hitem : ∀ other, ¬Faulty before item other := fun other => (hnone other).1
        exact ⟨hitem, ih.mpr fun other => (hnone other).2 hitem⟩

end Items

/-! ## Views of lines -/

/-- What is seen of a line: its words, or the cause for which it has none. -/
abbrev LineView := Except SystemFault (List (List Char))

namespace LineView

def isBlank : LineView → Bool
  | .ok [] => true
  | _ => false

@[simp]
theorem isBlank_blank : isBlank (.ok []) = true := rfl

@[simp]
theorem isBlank_words (token : List Char) (tokens : List (List Char)) :
    isBlank (.ok (token :: tokens)) = false := rfl

@[simp]
theorem isBlank_error (cause : SystemFault) : isBlank (.error cause) = false := rfl

def filled (views : List LineView) : List LineView :=
  views.filter fun view => !view.isBlank

theorem filled_cons_blank (views : List LineView) : filled (.ok [] :: views) = filled views := rfl

theorem filled_cons_words (token : List Char) (tokens : List (List Char)) (views : List LineView) :
    filled (.ok (token :: tokens) :: views) = .ok (token :: tokens) :: filled views := rfl

theorem filled_cons_error (cause : SystemFault) (views : List LineView) :
    filled (.error cause :: views) = .error cause :: filled views := rfl

end LineView

/-- How a line of bytes is seen.  One that encodes no text has no words. -/
inductive Text.ViewOf (line : Bytes) : LineView → Prop
  | words {tokens : List (List Char)} (hwords : LineWords line tokens) : ViewOf line (.ok tokens)
  | malformed (hline : ∀ text, encode (String.ofList text) ≠ line) :
      ViewOf line (.error .malformedText)

def Input.views (input : Input) : List LineView :=
  input.map (Except.map Text.words)

@[simp]
theorem Input.views_nil : Input.views [] = [] := rfl

@[simp]
theorem Input.views_ok (text : List Char) (rest : Input) :
    Input.views (.ok text :: rest) = .ok (Text.words text) :: Input.views rest := rfl

@[simp]
theorem Input.views_error (cause : SystemFault) (rest : Input) :
    Input.views (.error cause :: rest) = .error cause :: Input.views rest := rfl

theorem Text.viewOf_iff {line : Bytes} {view : LineView} :
    ViewOf line view ↔ (Input.ofLine line).map words = view := by
  constructor
  · rintro (@⟨tokens, text, hline, hwords⟩ | hline)
    · rw [Input.ofLine, decode_eq_some_iff.mpr hline, ← words_eq_iff.mpr hwords]
      rfl
    · have hdecode : decode line = none := by
        rw [Option.eq_none_iff_forall_ne_some]
        exact fun text htext => hline text (decode_eq_some_iff.mp htext)
      rw [Input.ofLine, hdecode]
      rfl
  · rintro rfl
    rw [Input.ofLine]
    cases hdecode : decode line with
    | some text => exact .words ⟨text, decode_eq_some_iff.mp hdecode, words_spec text⟩
    | none =>
        refine .malformed fun text hline => ?_
        rw [decode_eq_some_iff.mpr hline] at hdecode
        contradiction

/-- A byte string is seen in one way: by the views of its input. -/
theorem Text.exists_views_iff {bytes : Bytes} {Shown : List LineView → Prop} :
    (∃ lines views, Lines bytes lines ∧ List.Forall₂ ViewOf lines views ∧ Shown views) ↔
      Shown (Input.ofBytes bytes).views := by
  have hviews : (Input.ofBytes bytes).views =
      (lines bytes).map fun line => (Input.ofLine line).map words := by
    rw [Input.views, Input.ofBytes, List.map_map, Function.comp_def]
  rw [hviews]
  constructor
  · rintro ⟨_, views, hlines, hviews, hshown⟩
    obtain rfl := lines_eq_iff.mpr hlines
    have heq := hviews.imp fun _ _ => viewOf_iff.mp
    rw [← List.forall₂_map_left_iff (R := Eq), List.forall₂_eq_eq_eq] at heq
    rwa [heq]
  · intro hshown
    refine ⟨lines bytes, _, lines_spec bytes, ?_, hshown⟩
    rw [List.forall₂_map_right_iff, List.forall₂_same]
    exact fun line _ => viewOf_iff.mpr rfl

end AverageLinkage
