/-!
# Readers

A reader goes through a text step by step, with a state of its own.  Each step takes at
least one character, so that reading comes to an end.
-/

namespace AverageLinkage

/-- What is left of a text after a part of it was read is no longer than a bound. -/
def Leaves {α : Type} (bound : Nat) (part? : Option (α × List Char)) : Prop :=
  ∀ value rest, part? = some (value, rest) → rest.length ≤ bound

section Leaves

variable {α β : Type} {bound : Nat}

@[simp]
theorem leaves_none : Leaves bound (none : Option (α × List Char)) := by
  intro value rest hpart
  contradiction

@[simp]
theorem leaves_some {value : α} {rest : List Char} :
    Leaves bound (some (value, rest)) ↔ rest.length ≤ bound := by
  constructor
  · intro hleaves
    exact hleaves value rest rfl
  · rintro hlength _ _ ⟨⟩
    exact hlength

theorem Leaves.mono {larger : Nat} {part? : Option (α × List Char)}
    (hleaves : Leaves bound part?) (hle : bound ≤ larger) : Leaves larger part? :=
  fun value rest hpart => Nat.le_trans (hleaves value rest hpart) hle

/-- A part that is read after another decides on what is left. -/
theorem Leaves.bind {first? : Option β} {next : β → Option (α × List Char)}
    (hnext : ∀ value, first? = some value → Leaves bound (next value)) :
    Leaves bound (first? >>= next) := by
  cases first? with
  | none => exact leaves_none
  | some value => exact hnext value rfl

theorem Leaves.map {first? : Option β} {next : β → α × List Char}
    (hnext : ∀ value, first? = some value → (next value).2.length ≤ bound) :
    Leaves bound (first?.map next) := by
  cases first? with
  | none => exact leaves_none
  | some value => exact leaves_some.mpr (hnext value rfl)

end Leaves

structure Reader (State Result : Type) where
  /-- The text without what has no meaning at its beginning. -/
  skip : State → List Char → List Char
  /-- The result at the end of the text. -/
  finish? : State → Option Result
  /-- Read on from a character: to the next state, or to the result. -/
  step? : State → Char → List Char → Option ((State ⊕ Result) × List Char)
  length_skip_le : ∀ state text, (skip state text).length ≤ text.length
  leaves_step? : ∀ state char rest, Leaves rest.length (step? state char rest)

namespace Reader

variable {State Result : Type}

theorem length_lt_of_step? (reader : Reader State Result) {state : State} {text rest : List Char}
    {char : Char} {outcome : State ⊕ Result} {left : List Char}
    (hskip : reader.skip state text = char :: rest)
    (hstep : reader.step? state char rest = some (outcome, left)) :
    left.length < text.length := by
  have hskipped := reader.length_skip_le state text
  have hleft := reader.leaves_step? state char rest outcome left hstep
  rw [hskip, List.length_cons] at hskipped
  omega

/-- Read a text from its beginning; the second result is what is left of it. -/
def read? (reader : Reader State Result) (state : State) (text : List Char) :
    Option (Result × List Char) :=
  match hskip : reader.skip state text with
  | [] => (reader.finish? state).map fun result => (result, [])
  | char :: rest =>
      match hstep : reader.step? state char rest with
      | none => none
      | some (.inl next, left) =>
          have := reader.length_lt_of_step? hskip hstep
          reader.read? next left
      | some (.inr result, left) => some (result, left)
termination_by text.length

theorem read?_of_skip_eq_nil (reader : Reader State Result) {state : State} {text : List Char}
    (hskip : reader.skip state text = []) :
    reader.read? state text = (reader.finish? state).map fun result => (result, []) := by
  rw [read?]
  split
  · rfl
  · next hcons => simp [hskip] at hcons

theorem read?_of_step? (reader : Reader State Result) {state next : State}
    {text rest left : List Char} {char : Char} (hskip : reader.skip state text = char :: rest)
    (hstep : reader.step? state char rest = some (.inl next, left)) :
    reader.read? state text = reader.read? next left := by
  rw [read?]
  split
  · next hnil => simp [hskip] at hnil
  · next other others hcons =>
    obtain ⟨rfl, rfl⟩ := List.cons.inj (hskip.symm.trans hcons)
    split
    · next hnone => simp [hstep] at hnone
    · next hsome =>
      cases hstep.symm.trans hsome
      rfl
    · next hsome => simp [hstep] at hsome

theorem leaves_read? (reader : Reader State Result) (state : State) (text : List Char) :
    Leaves text.length (reader.read? state text) := by
  fun_induction reader.read? state text with
  | case1 state text hskip => exact Leaves.map fun _ _ => Nat.zero_le _
  | case2 => exact leaves_none
  | case3 state text char rest hskip next left hstep hshorter ih =>
      exact ih.mono (Nat.le_of_lt hshorter)
  | case4 state text char rest hskip result left hstep =>
      exact leaves_some.mpr (Nat.le_of_lt (reader.length_lt_of_step? hskip hstep))

end Reader

end AverageLinkage
