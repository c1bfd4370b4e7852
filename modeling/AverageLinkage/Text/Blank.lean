import AverageLinkage.Text.Pieces

/-!
# Blanks and words

A blank is a code point with the Unicode property White_Space.  Information
separators, zero-width characters and the byte order mark are not blanks.
-/

namespace AverageLinkage.Text

/-- First and last code point of each run of blanks, in increasing order. -/
def blankRanges : List (Nat × Nat) :=
  [(0x0009, 0x000D), (0x0020, 0x0020), (0x0085, 0x0085), (0x00A0, 0x00A0),
    (0x1680, 0x1680), (0x2000, 0x200A), (0x2028, 0x2029), (0x202F, 0x202F),
    (0x205F, 0x205F), (0x3000, 0x3000)]

def isBlank (char : Char) : Bool :=
  blankRanges.any fun (first, last) => first ≤ char.toNat && char.toNat ≤ last

/-- The maximal runs of characters that are not blank, from left to right. -/
def words (text : List Char) : List (List Char) :=
  (pieces isBlank text).filter fun piece => !piece.isEmpty

@[simp]
theorem words_nil : words [] = [] := rfl

/-- A text without blanks is one word unless it is empty. -/
theorem words_eq_singleton {text : List Char} (htext : text ≠ [])
    (hplain : ∀ char ∈ text, isBlank char = false) : words text = [text] := by
  simp [words, pieces_eq_singleton hplain, htext]

/-- The stretch before the first blank is the first word. -/
theorem words_append_cons {word : List Char} {blank : Char} (hword : word ≠ [])
    (hplain : ∀ char ∈ word, isBlank char = false) (hblank : isBlank blank = true)
    (rest : List Char) : words (word ++ blank :: rest) = word :: words rest := by
  simp [words, pieces_append_cons hplain hblank, hword]

def trim (text : List Char) : List Char :=
  ((text.dropWhile isBlank).reverse.dropWhile isBlank).reverse

end AverageLinkage.Text
