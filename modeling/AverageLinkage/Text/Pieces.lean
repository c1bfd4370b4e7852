/-!
# Splitting a sequence at separators

`pieces` cuts a list at every separator and keeps the empty stretches, so the
pieces and the separators together account for every element.  Lines are the
pieces of a byte string at line feeds; words are the non-empty pieces of a
line at blanks.
-/

namespace AverageLinkage.Text

variable {α : Type}

/-- Put `item` in front of the first piece. -/
def extendFirst (item : α) : List (List α) → List (List α)
  | [] => [[item]]
  | piece :: rest => (item :: piece) :: rest

/-- The stretches of `items` between separators, empty ones included. -/
def pieces (separates : α → Bool) (items : List α) : List (List α) :=
  items.foldr
    (fun item rest => if separates item then [] :: rest else extendFirst item rest)
    [[]]

@[simp]
theorem pieces_nil (separates : α → Bool) : pieces separates [] = [[]] := rfl

theorem pieces_cons (separates : α → Bool) (item : α) (items : List α) :
    pieces separates (item :: items) =
      if separates item then [] :: pieces separates items
      else extendFirst item (pieces separates items) := rfl

theorem extendFirst_ne_nil (item : α) (rest : List (List α)) : extendFirst item rest ≠ [] := by
  cases rest <;> simp [extendFirst]

theorem pieces_ne_nil (separates : α → Bool) (items : List α) : pieces separates items ≠ [] := by
  cases items with
  | nil => simp
  | cons item items =>
      rw [pieces_cons]
      split
      · simp
      · exact extendFirst_ne_nil item _

/-- Without a separator there is one piece. -/
theorem pieces_eq_singleton {separates : α → Bool} {items : List α}
    (hplain : ∀ item ∈ items, separates item = false) :
    pieces separates items = [items] := by
  induction items with
  | nil => rfl
  | cons item items ih =>
      rw [pieces_cons, ih fun other hother => hplain other (List.mem_cons_of_mem item hother)]
      simp [hplain item List.mem_cons_self, extendFirst]

/-- The stretch before the first separator is the first piece. -/
theorem pieces_append_cons {separates : α → Bool} {items : List α} {separator : α}
    (hplain : ∀ item ∈ items, separates item = false)
    (hseparator : separates separator = true) (rest : List α) :
    pieces separates (items ++ separator :: rest) = items :: pieces separates rest := by
  induction items with
  | nil => simp [pieces_cons, hseparator]
  | cons item items ih =>
      rw [List.cons_append, pieces_cons,
        ih fun other hother => hplain other (List.mem_cons_of_mem item hother)]
      simp [hplain item List.mem_cons_self, extendFirst]

end AverageLinkage.Text
