import Mathlib
import AverageLinkage.Proofs.PackedTable

/-!
# What reading a distance table gives

Reading goes twice over its input.  The first time it looks at lines and ends at the first
one that is no text or has a word that is no number.  Then the number of rows is known, and
it looks at rows: the first one of another length, or with a value below the diagonal that
is no distance, decides.  A fault of the first kind hides all of the second kind, wherever
they stand.
-/

namespace AverageLinkage.DistanceTable

open LineView (filled filled_cons_blank filled_cons_words filled_cons_error)

/-- A word that is no number, behind those left of it. -/
inductive BadToken (row : Nat) (left : List (List Char)) (token : List Char) : Fault → Prop
  | intro (htoken : Decimal.read? token = none) :
      BadToken row left token (.invalidToken row left.length (String.ofList token))

/-- The fault of a line behind the lines `before`, of which those that are not blank are rows. -/
inductive LineFault (before : List LineView) : LineView → Fault → Prop
  | unreadable {cause : SystemFault} : LineFault before (.error cause) (.unreadable cause)
  | token {tokens : List (List Char)} {fault : Fault}
      (hfirst : FirstFault (BadToken (filled before).length) [] tokens fault) :
      LineFault before (.ok tokens) fault

/-- A value below the diagonal that is no distance, behind those left of it. -/
inductive BadDistance (row : Nat) (left : List Float) (value : Float) : Fault → Prop
  | intro (hbelow : left.length < row) (hvalue : value.isNaN = true ∨ value < 0) :
      BadDistance row left value (.invalidDistance row left.length value)

/-- The fault of a row behind the rows `before`, in a table of the given size. -/
inductive RowFault (size : Nat) (before : List (List Float)) (values : List Float) : Fault → Prop
  | length (hlength : values.length ≠ size) :
      RowFault size before values (.rowLength before.length size values.length)
  | distance {fault : Fault} (hlength : values.length = size)
      (hfirst : FirstFault (BadDistance before.length) [] values fault) :
      RowFault size before values fault

/-- The words of a line are the numbers of a row. -/
def IsRow (view : LineView) (values : List Float) : Prop :=
  ∃ tokens, view = .ok tokens ∧
    List.Forall₂ (fun token value => Decimal.read? token = some value) tokens values

/-- What lines give: the fault of the first line that has one, else that of the first row, and
else the table of all rows. -/
inductive Reads (views : List LineView) : Except Fault DistanceTable → Prop
  | line {fault : Fault} (hfirst : FirstFault LineFault [] views fault) :
      Reads views (.error fault)
  | row {rows : List (List Float)} {fault : Fault}
      (hrows : List.Forall₂ IsRow (filled views) rows)
      (hfirst : FirstFault (RowFault rows.length) [] rows fault) : Reads views (.error fault)
  | table {rows : List (List Float)} {table : DistanceTable}
      (hrows : List.Forall₂ IsRow (filled views) rows)
      (hnone : Faultless (RowFault rows.length) [] rows) (hsize : table.size = rows.length)
      (hdistance : ∀ row column,
        table.distance? row column = rows[row]?.bind fun values => values[column]?) :
      Reads views (.ok table)

/-! ## Words of a line -/

section Words

variable {row : Nat} {tokens : List (List Char)} {token : List Char} {fault : Fault}

theorem badToken_iff {left : List (List Char)} :
    BadToken row left token fault ↔
      Decimal.read? token = none ∧
        .invalidToken row left.length (String.ofList token) = fault := by
  constructor
  · rintro ⟨htoken⟩
    exact ⟨htoken, rfl⟩
  · rintro ⟨htoken, rfl⟩
    exact ⟨htoken⟩

/-- Words are read up to the leftmost one that is no number. -/
theorem readValues_eq_error_iff (left : List (List Char)) :
    readValues row left.length tokens = .error fault ↔
      FirstFault (BadToken row) left tokens fault := by
  induction tokens generalizing left with
  | nil => simp [readValues]
  | cons token rest ih =>
      have hrest : readValues row (left.length + 1) rest = .error fault ↔
          FirstFault (BadToken row) (left ++ [token]) rest fault := by
        rw [← ih, List.length_append, List.length_singleton]
      rw [readValues, firstFault_cons_iff, ← hrest]
      simp only [badToken_iff]
      cases Decimal.read? token with
      | none => simp
      | some value => simp [bind_eq_error_iff, pure, Except.pure]

theorem readValues_eq_ok_iff {column : Nat} {values : List Float} :
    readValues row column tokens = .ok values ↔
      List.Forall₂ (fun token value => Decimal.read? token = some value) tokens values := by
  induction tokens generalizing column values with
  | nil => simp [readValues, eq_comm]
  | cons token rest ih =>
      rw [readValues, List.forall₂_cons_left_iff]
      cases Decimal.read? token with
      | none => simp
      | some value =>
          simp only [bind_eq_ok_iff, ih, Option.some.injEq]
          constructor
          · rintro ⟨others, hothers, hvalues⟩
            exact ⟨value, others, rfl, hothers, (Except.ok.inj hvalues).symm⟩
          · rintro ⟨_, others, rfl, hothers, rfl⟩
            exact ⟨others, hothers, rfl⟩

end Words

/-! ## Lines -/

section Lines

variable {before : List LineView} {tokens : List (List Char)} {cause : SystemFault} {fault : Fault}
  {input : Input}

theorem lineFault_error_iff :
    LineFault before (.error cause) fault ↔ fault = .unreadable cause := by
  constructor
  · rintro (_ | _)
    rfl
  · rintro rfl
    exact .unreadable

theorem lineFault_words_iff :
    LineFault before (.ok tokens) fault ↔
      readValues (filled before).length 0 tokens = .error fault := by
  have hwords : readValues (filled before).length 0 tokens = .error fault ↔
      FirstFault (BadToken (filled before).length) [] tokens fault := readValues_eq_error_iff []
  rw [hwords]
  constructor
  · rintro (_ | hfirst)
    exact hfirst
  · exact .token

/-- Lines are read up to the first one with a fault. -/
theorem readRows_eq_error_iff (before : List LineView) :
    readRows (filled before).length input = .error fault ↔
      FirstFault LineFault before input.views fault := by
  induction input generalizing before with
  | nil => simp [readRows]
  | cons item rest ih =>
      cases item with
      | error cause =>
          rw [readRows, Input.views_error,
            firstFault_cons_of_faulty fun _ => lineFault_error_iff, Except.error.injEq, eq_comm]
      | ok line =>
          rw [Input.views_ok, readRows, firstFault_cons_iff, ← ih]
          simp only [lineFault_words_iff]
          cases Text.words line with
          | nil => simp [readValues, filled]
          | cons token tokens =>
              have hcount : (filled (before ++ [.ok (token :: tokens)])).length =
                  (filled before).length + 1 := by simp [filled]
              rw [hcount]
              exact sequence_eq_error_iff fun _ _ _ hresult => by cases hresult

theorem isRow_words_iff {values : List Float} :
    IsRow (.ok tokens) values ↔
      List.Forall₂ (fun token value => Decimal.read? token = some value) tokens values := by
  constructor
  · rintro ⟨_, htokens, hvalues⟩
    obtain rfl := Except.ok.inj htokens
    exact hvalues
  · exact fun hvalues => ⟨tokens, rfl, hvalues⟩

/-- All rows are read if every line that is not blank is one. -/
theorem readRows_eq_ok_iff {row : Nat} {rows : List (List Float)} :
    readRows row input = .ok rows ↔ List.Forall₂ IsRow (filled input.views) rows := by
  induction input generalizing row rows with
  | nil => simp [readRows, filled, eq_comm]
  | cons item rest ih =>
      cases item with
      | error cause =>
          rw [Input.views_error, filled_cons_error, List.forall₂_cons_left_iff]
          simp [readRows, IsRow]
      | ok line =>
          rw [Input.views_ok, readRows]
          cases Text.words line with
          | nil =>
              rw [filled_cons_blank]
              exact ih
          | cons token tokens =>
              simp only [filled_cons_words, List.forall₂_cons_left_iff, isRow_words_iff,
                bind_eq_ok_iff, readValues_eq_ok_iff, ih]
              constructor
              · rintro ⟨values, hvalues, others, hothers, hrows⟩
                exact ⟨values, others, hvalues, hothers, (Except.ok.inj hrows).symm⟩
              · rintro ⟨values, others, hvalues, hothers, rfl⟩
                exact ⟨values, hvalues, others, hothers, rfl⟩

end Lines

/-! ## Rows -/

section Rows

variable {size row : Nat} {left values : List Float} {value : Float} {fault : Fault}

theorem isDistance_eq_false_iff :
    isDistance value = false ↔ value.isNaN = true ∨ value < 0 := by
  rw [isDistance, Bool.and_eq_false_iff, Bool.not_eq_false', Bool.not_eq_false', decide_eq_true_iff]

/-- Only entries left of the diagonal are looked at. -/
theorem badDistance_iff :
    BadDistance row left value fault ↔
      left.length < row ∧ isDistance value = false ∧
        .invalidDistance row left.length value = fault := by
  rw [isDistance_eq_false_iff]
  constructor
  · rintro ⟨hbelow, hvalue⟩
    exact ⟨hbelow, hvalue, rfl⟩
  · rintro ⟨hbelow, hvalue, rfl⟩
    exact ⟨hbelow, hvalue⟩

/-- The leftmost value below the diagonal that is no distance is found by its column. -/
theorem firstFault_badDistance_iff (left : List Float) :
    FirstFault (BadDistance row) left values fault ↔
      ∃ value column,
        ((values.take (row - left.length)).zipIdx left.length).find?
          (fun entry => !isDistance entry.1) = some (value, column) ∧
        .invalidDistance row column value = fault := by
  induction values generalizing left with
  | nil => simp
  | cons first rest ih =>
      rw [firstFault_cons_iff, ih, List.length_append, List.length_singleton]
      simp only [badDistance_iff]
      -- on the diagonal and behind it no values are left to look at
      by_cases hbelow : left.length < row
      · have hcount : row - left.length = row - (left.length + 1) + 1 := by omega
        rw [hcount, List.take_succ_cons, List.zipIdx_cons, List.find?_cons]
        cases hfirst : isDistance first <;> simp [hbelow]
      · have hnone : row - left.length = 0 := by omega
        have hnone' : row - (left.length + 1) = 0 := by omega
        simp [hnone, hnone', hbelow]

theorem firstFault_badDistance_nil_iff :
    FirstFault (BadDistance row) [] values fault ↔
      ∃ value column, firstInvalid? (values.take row) = some (column, value) ∧
        .invalidDistance row column value = fault := by
  simp [firstFault_badDistance_iff, firstInvalid?]

/-- A row fails by its length, and else by its values. -/
theorem checkRow_eq_error_iff {before : List (List Float)} :
    checkRow size before.length values = .error fault ↔ RowFault size before values fault := by
  rw [checkRow]
  split
  · next hlength =>
      have hvalues : RowFault size before values fault ↔
          FirstFault (BadDistance before.length) [] values fault := by
        constructor
        · rintro (hother | ⟨-, hfirst⟩)
          · exact absurd hlength hother
          · exact hfirst
        · exact .distance hlength
      rw [hvalues, firstFault_badDistance_nil_iff]
      cases firstInvalid? (values.take before.length) with
      | none => simp
      | some found =>
          obtain ⟨column, value⟩ := found
          simp
  · next hlength =>
      constructor
      · intro hresult
        obtain rfl := Except.error.inj hresult
        exact .length hlength
      · rintro (_ | ⟨hother, -⟩)
        · rfl
        · exact absurd hother hlength

/-- Rows are checked up to the first one with a fault. -/
theorem checkRows_eq_error_iff (before : List (List Float)) {rows : List (List Float)} :
    checkRows size before.length rows = .error fault ↔
      FirstFault (RowFault size) before rows fault := by
  induction rows generalizing before with
  | nil => simp [checkRows]
  | cons values rest ih =>
      have hrest : checkRows size (before.length + 1) rest = .error fault ↔
          FirstFault (RowFault size) (before ++ [values]) rest fault := by
        rw [← ih, List.length_append, List.length_singleton]
      rw [checkRows, bind_eq_error_iff, firstFault_cons_iff, exists_and_right, exists_eq_ok_iff,
        hrest]
      simp only [ne_eq, checkRow_eq_error_iff]

theorem faultless_iff_checkRows {rows : List (List Float)} :
    Faultless (RowFault size) [] rows ↔ ∃ done, checkRows size 0 rows = .ok done := by
  rw [faultless_iff_not_firstFault, exists_eq_ok_iff]
  exact forall_congr' fun fault => not_congr (checkRows_eq_error_iff []).symm

end Rows

/-! ## Tables -/

/-- A table is known by its size and its values. -/
theorem eq_of_distance? {table : DistanceTable} {rows : List (List Float)}
    (hsize : table.size = rows.length)
    (hdistance : ∀ row column,
      table.distance? row column = rows[row]?.bind fun values => values[column]?) :
    table = ⟨rows⟩ := by
  obtain ⟨found⟩ := table
  congr 1
  apply List.ext_getElem hsize
  intro row hrow hrow'
  apply List.ext_getElem?
  intro column
  have hvalue := hdistance row column
  rw [List.getElem?_eq_getElem hrow', distance?, List.getElem?_eq_getElem hrow] at hvalue
  exact hvalue

variable {input : Input}

theorem reads_of_read : Reads input.views (read input) := by
  rw [read]
  cases hrows : readRows 0 input with
  | error fault => exact .line ((readRows_eq_error_iff []).mp hrows)
  | ok rows =>
      have hrows := readRows_eq_ok_iff.mp hrows
      change Reads input.views (checkRows rows.length 0 rows >>= fun _ => .ok ⟨rows⟩)
      cases hcheck : checkRows rows.length 0 rows with
      | error fault => exact .row hrows ((checkRows_eq_error_iff []).mp hcheck)
      | ok done =>
          exact .table hrows (faultless_iff_checkRows.mpr ⟨done, hcheck⟩) rfl fun _ _ => rfl

/-- What lines give is determined. -/
theorem Reads.read_eq {result : Except Fault DistanceTable} (hreads : Reads input.views result) :
    read input = result := by
  cases hreads with
  | line hfirst =>
      have hrows : readRows 0 input = .error _ := (readRows_eq_error_iff []).mpr hfirst
      rw [read, hrows]
      rfl
  | @row rows fault hrows hfirst =>
      have hrows : readRows 0 input = .ok rows := readRows_eq_ok_iff.mpr hrows
      have hcheck : checkRows rows.length 0 rows = .error fault :=
        (checkRows_eq_error_iff []).mpr hfirst
      rw [read, hrows]
      change ofRows rows = _
      rw [ofRows, hcheck]
      rfl
  | @table rows table hrows hnone hsize hdistance =>
      have hrows : readRows 0 input = .ok rows := readRows_eq_ok_iff.mpr hrows
      obtain ⟨done, hcheck⟩ := faultless_iff_checkRows.mp hnone
      obtain rfl := eq_of_distance? hsize hdistance
      rw [read, hrows]
      change ofRows rows = _
      rw [ofRows, hcheck]
      rfl

/-- Reading into one array shows the same: the fault, or the size and all values. -/
theorem read_packed :
    (PackedTable.read input).map (fun table => (table.size, table.distance?)) =
      (read input).map fun table => (table.size, table.distance?) := by
  rw [PackedTable.read, read]
  cases readRows 0 input with
  | error fault => rfl
  | ok rows =>
      change (PackedTable.ofRows rows).map _ = (ofRows rows).map _
      obtain ⟨fault, hpacked, htable⟩ | ⟨packed, hpacked, htable, hpacks⟩ :=
        PackedTable.ofRows_cases rows
      · rw [hpacked, htable]
        rfl
      · have hdistance : packed.distance? = distance? ⟨rows⟩ := by
          funext row column
          exact hpacks.distance?_eq row column
        rw [hpacked, htable, Except.map, Except.map, hpacks.size_eq, hdistance]

/-- What reading gives, by the lines and then by the rows: the fault of the first line that is
no text or has a word that is no number, else the fault of the first row of another length or
with a value below the diagonal that is no distance, and else the table of all values.  A table
in one array has the same faults, size and values. -/
theorem read_eq_iff_reads (bytes : Text.Bytes) :
    (∀ result, read (Input.ofBytes bytes) = result ↔
      ∃ lines views, Text.Lines bytes lines ∧ List.Forall₂ Text.ViewOf lines views ∧
        Reads views result) ∧
      (PackedTable.read (Input.ofBytes bytes)).map (fun table => (table.size, table.distance?)) =
        (read (Input.ofBytes bytes)).map fun table => (table.size, table.distance?) := by
  refine ⟨fun result => ?_, read_packed⟩
  rw [Text.exists_views_iff]
  constructor
  · rintro rfl
    exact reads_of_read
  · exact Reads.read_eq

end AverageLinkage.DistanceTable
