import Mathlib
import AverageLinkage.Text.Blank
import AverageLinkage.Text.Input

/-!
# Lines and words as relations

What counts as a line of a byte string, as its text and as a word of a text is said
here without reference to how they are found.  Cutting a byte string at its line
feeds, decoding a line and cutting a text at its blanks find exactly these.
-/

namespace AverageLinkage.Text

/-! ## Lines -/

/-- The lines of a byte string.  A line ends at a line feed, or at a carriage return
with a line feed behind it, and the last one may lack an end if it is not empty. -/
inductive Lines : Bytes → List Bytes → Prop
  | none : Lines [] []
  | unended {line : Bytes} (hline : line ≠ []) (hplain : lineFeed ∉ line) : Lines line [line]
  | feed {line rest : Bytes} {lines : List Bytes} (hplain : lineFeed ∉ line)
      (hlast : line.getLast? ≠ some carriageReturn) (hrest : Lines rest lines) :
      Lines (line ++ lineFeed :: rest) (line :: lines)
  | returnFeed {line rest : Bytes} {lines : List Bytes} (hplain : lineFeed ∉ line)
      (hrest : Lines rest lines) :
      Lines (line ++ carriageReturn :: lineFeed :: rest) (line :: lines)

theorem lines_of_notMem {line : Bytes} (hline : line ≠ []) (hplain : lineFeed ∉ line) :
    lines line = [line] := by
  have hpieces : pieces (· == lineFeed) line = [line] :=
    pieces_eq_singleton fun byte hbyte => by
      simpa using ne_of_mem_of_not_mem hbyte hplain
  simp [lines, hpieces, closeLines, hline]

/-- A line feed ends a line, together with a carriage return before it. -/
theorem lines_append_lineFeed {line : Bytes} (hplain : lineFeed ∉ line) (rest : Bytes) :
    lines (line ++ lineFeed :: rest) = dropCarriageReturn line :: lines rest :=
  lines_append_cons (fun _ hbyte => ne_of_mem_of_not_mem hbyte hplain) rest

/-- A byte string has one division into lines, and it is the one that is computed. -/
theorem Lines.lines_eq {bytes : Bytes} {found : List Bytes} (hlines : Lines bytes found) :
    lines bytes = found := by
  induction hlines with
  | none => rfl
  | unended hline hplain => exact lines_of_notMem hline hplain
  | feed hplain hlast _ ih =>
      rw [lines_append_lineFeed hplain, dropCarriageReturn, if_neg hlast, ih]
  | @returnFeed line rest _ hplain _ ih =>
      have hplain' : lineFeed ∉ line ++ [carriageReturn] := by
        simpa [lineFeed, carriageReturn] using hplain
      have hsplit : line ++ carriageReturn :: lineFeed :: rest =
          (line ++ [carriageReturn]) ++ lineFeed :: rest := by simp
      rw [hsplit, lines_append_lineFeed hplain', ih]
      simp [dropCarriageReturn]

theorem lines_spec (bytes : Bytes) : Lines bytes (lines bytes) := by
  -- by the first line feed, behind which the byte string is shorter
  induction hlength : bytes.length using Nat.strong_induction_on generalizing bytes with
  | _ length ih =>
      by_cases hfeed : lineFeed ∈ bytes
      · obtain ⟨line, rest, rfl, hplain⟩ := List.eq_append_cons_of_mem hfeed
        have hrest := ih rest.length (by simp at hlength; omega) rest rfl
        rw [lines_append_lineFeed hplain, dropCarriageReturn]
        split
        · next hlast =>
            obtain ⟨front, rfl⟩ := List.getLast?_eq_some_iff.mp hlast
            rw [List.dropLast_concat, List.append_assoc]
            exact .returnFeed (fun hmem => hplain (List.mem_append_left _ hmem)) hrest
        · next hlast => exact .feed hplain hlast hrest
      · cases bytes with
        | nil => exact .none
        | cons byte bytes =>
            rw [lines_of_notMem (List.cons_ne_nil byte bytes) hfeed]
            exact .unended (List.cons_ne_nil byte bytes) hfeed

theorem lines_eq_iff {bytes : Bytes} {found : List Bytes} :
    lines bytes = found ↔ Lines bytes found := by
  constructor
  · rintro rfl
    exact lines_spec bytes
  · exact Lines.lines_eq

/-! ## Texts of lines -/

theorem encode_ofList (text : List Char) :
    encode (String.ofList text) = text.flatMap String.utf8EncodeChar := by
  simp [encode, String.toUTF8, List.utf8Encode]

theorem encode_append (left right : String) :
    encode (left ++ right) = encode left ++ encode right := by
  simp [encode, String.toUTF8]

/-- A line can be decoded exactly if it is the encoding of a text. -/
theorem decode_eq_some_iff {line : Bytes} {text : List Char} :
    decode line = some text ↔ encode (String.ofList text) = line := by
  rw [decode, String.fromUTF8?, encode]
  constructor
  · split
    · next hvalid =>
        intro hdecode
        obtain rfl := Option.some.inj hdecode
        rw [String.ofList_toList]
        rfl
    · simp
  · rintro rfl
    have hvalid : (⟨(String.ofList text).toUTF8.data.toList.toArray⟩ : ByteArray).IsValidUTF8 :=
      (String.ofList text).isValidUTF8
    rw [dif_pos hvalid]
    exact congrArg some String.toList_ofList

/-! ## Words -/

/-- The words of a text: the stretches without a blank, with blanks between them. -/
inductive Words : List Char → List (List Char) → Prop
  | none {text : List Char} (htext : ∀ char ∈ text, isBlank char = true) : Words text []
  | next {before word after : List Char} {words : List (List Char)}
      (hbefore : ∀ char ∈ before, isBlank char = true) (hword : word ≠ [])
      (hplain : ∀ char ∈ word, isBlank char = false)
      (hafter : ∀ char ∈ after.head?, isBlank char = true) (hwords : Words after words) :
      Words (before ++ word ++ after) (word :: words)

theorem words_cons_of_blank {char : Char} (hblank : isBlank char = true) (text : List Char) :
    words (char :: text) = words text := by
  simp [words, pieces_cons, hblank]

theorem words_append_of_blank {blanks : List Char} (hblanks : ∀ char ∈ blanks, isBlank char = true)
    (text : List Char) : words (blanks ++ text) = words text := by
  induction blanks with
  | nil => rfl
  | cons char blanks ih =>
      rw [List.cons_append, words_cons_of_blank (hblanks char List.mem_cons_self),
        ih fun other hother => hblanks other (List.mem_cons_of_mem char hother)]

/-- A word ends before a blank or at the end of the text. -/
theorem words_append {word after : List Char} (hword : word ≠ [])
    (hplain : ∀ char ∈ word, isBlank char = false)
    (hafter : ∀ char ∈ after.head?, isBlank char = true) :
    words (word ++ after) = word :: words after := by
  cases after with
  | nil => rw [List.append_nil, words_eq_singleton hword hplain, words_nil]
  | cons blank rest =>
      have hblank : isBlank blank = true := hafter blank rfl
      rw [words_append_cons hword hplain hblank, words_cons_of_blank hblank]

/-- A text has one division into words, and it is the one that is computed. -/
theorem Words.words_eq {text : List Char} {found : List (List Char)} (hwords : Words text found) :
    words text = found := by
  induction hwords with
  | @none text htext => simpa using words_append_of_blank htext []
  | next hbefore hword hplain hafter _ ih =>
      rw [List.append_assoc, words_append_of_blank hbefore, words_append hword hplain hafter, ih]

/-- A text is blank, or its first word stands behind blanks and ends before one. -/
theorem exists_first_word (text : List Char) :
    (∀ char ∈ text, isBlank char = true) ∨
      ∃ before word after, text = before ++ word ++ after ∧
        (∀ char ∈ before, isBlank char = true) ∧ word ≠ [] ∧
        (∀ char ∈ word, isBlank char = false) ∧ ∀ char ∈ after.head?, isBlank char = true := by
  have hsplit := List.takeWhile_append_dropWhile (p := isBlank) (l := text)
  have hbefore : ∀ char ∈ text.takeWhile isBlank, isBlank char = true :=
    fun _ hchar => List.mem_takeWhile_imp hchar
  cases hrest : text.dropWhile isBlank with
  | nil =>
      rw [hrest, List.append_nil] at hsplit
      rw [hsplit] at hbefore
      exact .inl hbefore
  | cons first rest =>
      have hfirst : isBlank first = false := by
        have := List.head_dropWhile_not isBlank (l := text) (by simp [hrest])
        simpa [hrest] using this
      set plain : Char → Bool := fun char => !isBlank char with hplain
      refine .inr ⟨text.takeWhile isBlank, (first :: rest).takeWhile plain,
        (first :: rest).dropWhile plain, ?_, hbefore, by simp [hplain, hfirst], ?_, ?_⟩
      · rw [List.append_assoc, List.takeWhile_append_dropWhile, ← hrest, hsplit]
      · intro char hchar
        simpa [hplain] using List.mem_takeWhile_imp hchar
      · intro char hchar
        have := List.head?_dropWhile_not plain (first :: rest)
        rw [Option.mem_def.mp hchar] at this
        simpa [hplain] using this

theorem words_spec (text : List Char) : Words text (words text) := by
  -- by the first word, behind which the text is shorter
  induction hlength : text.length using Nat.strong_induction_on generalizing text with
  | _ length ih =>
      obtain hblank | ⟨before, word, after, rfl, hbefore, hword, hplain, hafter⟩ :=
        exists_first_word text
      · have hnone := words_append_of_blank hblank []
        rw [List.append_nil, words_nil] at hnone
        rw [hnone]
        exact .none hblank
      · have hshorter : after.length < length := by
          have hpos := List.length_pos_of_ne_nil hword
          simp only [List.length_append] at hlength
          omega
        have hfound := Words.next hbefore hword hplain hafter (ih _ hshorter after rfl)
        rwa [hfound.words_eq]

theorem words_eq_iff {text : List Char} {found : List (List Char)} :
    words text = found ↔ Words text found := by
  constructor
  · rintro rfl
    exact words_spec text
  · exact Words.words_eq

end AverageLinkage.Text
