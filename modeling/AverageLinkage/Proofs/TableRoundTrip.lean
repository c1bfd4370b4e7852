import Mathlib
import AverageLinkage.Proofs.GraphRoundTrip
import AverageLinkage.Proofs.TableOutcome

/-!
# Written rows are read back

A written row is a line of number texts, and every number text is read as its number.  So
reading written rows finds the rows themselves, in their order and with their numbers, and
what is wrong with them is found in the same place.  Only a row without values is lost,
since its line is blank.
-/

namespace AverageLinkage

namespace DistanceTable

open LineView (filled filled_cons_blank filled_cons_words)
open Text (IsToken spaced tokenLine)

def rowTokens (values : List Float) : List (List Char) :=
  values.map Positional.chars

theorem isToken_rowTokens (values : List Float) : ∀ token ∈ rowTokens values, IsToken token := by
  intro token hmem
  obtain ⟨value, -, rfl⟩ := List.mem_map.mp hmem
  exact Graph.isToken_chars value

theorem renderRow_eq (values : List Float) :
    renderRow values ++ "\n" = tokenLine (rowTokens values) := by
  have htoList : String.toList ∘ Positional.text = Positional.chars :=
    funext fun value => String.toList_ofList
  rw [renderRow, tokenLine, rowTokens, ← htoList]
  apply String.toList_inj.mp
  simp [spaced]

theorem renderRows_eq (rows : List (List Float)) :
    renderRows rows = String.join ((rows.map rowTokens).map tokenLine) := by
  rw [renderRows, List.map_map]
  simp only [renderRow_eq, Function.comp_def]

/-- Reading the text of rows line by line gives their tokens back. -/
theorem views_renderRows (rows : List (List Float)) :
    (Input.ofBytes (Text.encode (renderRows rows))).views =
      rows.map fun values => .ok (rowTokens values) := by
  have htokens : ∀ tokens ∈ rows.map rowTokens, ∀ token ∈ tokens, IsToken token := by
    intro tokens hmem
    obtain ⟨values, -, rfl⟩ := List.mem_map.mp hmem
    exact isToken_rowTokens values
  rw [renderRows_eq, Input.views, Text.words_join_tokenLine htokens, List.map_map,
    Function.comp_def]

theorem isRow_rowTokens (values : List Float) : IsRow (.ok (rowTokens values)) values := by
  refine ⟨_, rfl, ?_⟩
  rw [rowTokens, List.forall₂_map_left_iff, List.forall₂_same]
  exact fun value _ => Decimal.read?_chars value

/-- Written rows are read back, without those that have no values. -/
theorem readRows_renderRows (rows : List (List Float)) :
    readRows 0 (Input.ofBytes (Text.encode (renderRows rows))) =
      .ok (rows.filter fun values => !values.isEmpty) := by
  rw [readRows_eq_ok_iff, views_renderRows]
  induction rows with
  | nil => exact .nil
  | cons values rest ih =>
      cases values with
      | nil => exact ih
      | cons first others => exact .cons (isRow_rowTokens (first :: others)) ih

theorem readRows_renderRows_of_ne_nil {rows : List (List Float)}
    (hrows : ∀ values ∈ rows, values ≠ []) :
    readRows 0 (Input.ofBytes (Text.encode (renderRows rows))) = .ok rows := by
  rw [readRows_renderRows, List.filter_eq_self.mpr]
  intro values hmem
  simpa using hrows values hmem

/-- Reading written rows gives what the rows give: the table of the same distances, or the same
fault in the same place. -/
theorem read_renderRows {rows : List (List Float)} (hrows : ∀ values ∈ rows, values ≠ []) :
    read (Input.ofBytes (Text.encode (renderRows rows))) = ofRows rows ∧
      PackedTable.read (Input.ofBytes (Text.encode (renderRows rows))) =
        PackedTable.ofRows rows := by
  have hread := readRows_renderRows_of_ne_nil hrows
  constructor
  · rw [read, hread]
    rfl
  · rw [PackedTable.read, hread]
    rfl

/-- Values on and above the diagonal may be anything, and the one below it is no distance. -/
def improperRows : List (List Float) :=
  [[0 / 0, -1], [0 / 0, 1 / 0]]

theorem read_renderRows_improper :
    (∀ values ∈ improperRows, values ≠ []) ∧
      read (Input.ofBytes (Text.encode (renderRows improperRows))) =
        .error (.invalidDistance 1 0 (0 / 0)) ∧
      PackedTable.read (Input.ofBytes (Text.encode (renderRows improperRows))) =
        .error (.invalidDistance 1 0 (0 / 0)) := by
  have hrows : ∀ values ∈ improperRows, values ≠ [] := by simp [improperRows]
  obtain ⟨htable, hpacked⟩ := read_renderRows hrows
  refine ⟨hrows, ?_, ?_⟩
  · rw [htable]
    rfl
  · rw [hpacked]
    rfl

end DistanceTable

end AverageLinkage
