import Mathlib
import AverageLinkage.Proofs.LinesAndWords
import AverageLinkage.Proofs.PatternNormal
import AverageLinkage.Proofs.PatternSearch

/-!
# Plain words as patterns

A word without special characters can be read as a pattern.  It matches a text only if the
text ends with the word, and it does match if the word stands nowhere else in the text.
-/

namespace AverageLinkage.Pattern

open Machine (TextByte bytesOf bytesOfText)

/-! ## Reading a word -/

def specialChars : List Char :=
  ['(', ')', '|', '[', '?', '*', '+', '\x7b', '\\', '.', '^', '$']

def letter (char : Char) : Pattern :=
  oneOf {} (.singleton char)

/-- A character without another meaning is read as itself. -/
theorem Nesting.next?_of_not_mem {nesting : Nesting} {char : Char} (hplain : char ∉ specialChars)
    (hsettings : nesting.group.settings = {}) (rest : List Char) :
    nesting.next? char rest = some (nesting.push { value := letter char }, rest) := by
  unfold Nesting.next?
  dsimp only
  split
  case h_13 =>
    rw [hsettings]
    rfl
  all_goals exact absurd (by decide) hplain

/-- The parts of a text, the last one first. -/
def letterParts (text : List Char) : List (Nested (Option Pattern)) :=
  (text.map fun char => { value := some (letter char) }).reverse

/-- Characters without a special meaning become parts of the group in which they stand. -/
theorem Nesting.read?_plain {text : List Char} (hplain : ∀ char ∈ text, char ∉ specialChars)
    (parts : List (Nested (Option Pattern))) :
    reader.read? { group := { settings := {}, parts } } text =
      some (Group.content { settings := {}, parts := letterParts text ++ parts }, []) := by
  induction text generalizing parts with
  | nil => exact reader.read?_of_skip_eq_nil rfl
  | cons char rest ih =>
      obtain ⟨hchar, hrest⟩ := List.forall_mem_cons.mp hplain
      have hstep : reader.step? { group := { settings := {}, parts } } char rest =
          some (.inl { group := { settings := {}
                                  parts := { value := some (letter char) } :: parts } }, rest) := by
        change (next? _ char rest).map _ = _
        rw [next?_of_not_mem hchar rfl]
        rfl
      rw [reader.read?_of_step? rfl hstep, ih hrest]
      simp [letterParts]

/-- Values side by side are at most one construct deeper than the deepest of them. -/
theorem depth_join_le {α β : Type} (build : List α → β) {items : List (Nested α)} {bound : Nat}
    (hitems : ∀ item ∈ items, item.depth ≤ bound) :
    (Nested.join build items).depth ≤ bound + 1 := by
  have hdeepest : Nested.deepest items ≤ bound := by
    induction items with
    | nil => exact Nat.zero_le _
    | cons item rest ih =>
        obtain ⟨hitem, hrest⟩ := List.forall_mem_cons.mp hitems
        exact Nat.max_le.mpr ⟨hitem, ih hrest⟩
  rw [Nested.join]
  dsimp only
  split <;> omega

/-- A text without special characters can be read, and describes the text with its characters
in their order. -/
theorem read?_plain {text : List Char} (hplain : ∀ char ∈ text, char ∉ specialChars) :
    ∃ pattern, read? text = some pattern ∧
      ∀ bytes, Fits bytes pattern = FitsInTurn bytes (text.map letter) := by
  have hread := Nesting.read?_plain hplain []
  rw [List.append_nil] at hread
  generalize hgroup : ({ settings := {}, parts := letterParts text } : Group) = group at hread
  have hparts : group.parts = letterParts text := hgroup ▸ rfl
  have hchoices : group.choices = [] := hgroup ▸ rfl
  have hdepth : group.content.depth ≤ 2 := by
    apply depth_join_le
    rw [hchoices, List.reverse_singleton]
    rintro _ ⟨⟩
    · apply depth_join_le
      simp [hparts, letterParts]
    · contradiction
  refine ⟨group.content.value, ?_, fun bytes => ?_⟩
  · rw [read?, hread]
    exact if_pos (hdepth.trans (by decide))
  · have hletters : (letterParts text).reverse.filterMap Nested.value = text.map letter := by
      rw [letterParts, List.reverse_reverse, List.filterMap_map]
      exact congrFun List.filterMap_eq_map' text
    funext first last
    rw [group.fits_content, hchoices, List.reverse_singleton]
    simp [FitsSome, group.fits_currentChoice, hparts, hletters]

/-! ## Words in a text -/

/-- Only the first byte of a character comes with the character. -/
theorem exists_bytesOf_eq_cons (char : Char) :
    ∃ value rest, bytesOf char = { value, char? := some char } :: rest ∧
      rest.length + 1 = char.utf8Size ∧ ∀ byte ∈ rest, byte.char? = none := by
  have hencode : Text.encode (String.singleton char) = String.utf8EncodeChar char := by
    have hlist := Text.encode_ofList [char]
    rwa [List.flatMap_singleton] at hlist
  have hlength := String.length_utf8EncodeChar char
  rw [bytesOf, hencode]
  cases hbytes : String.utf8EncodeChar char with
  | nil =>
      have hsize := char.utf8Size_pos
      simp [hbytes] at hlength
      omega
  | cons byte rest =>
      refine ⟨byte, _, rfl, ?_, ?_⟩
      · simpa [hbytes] using hlength
      · simp

theorem length_bytesOf (char : Char) : (bytesOf char).length = char.utf8Size := by
  obtain ⟨value, rest, hbytes, hlength, -⟩ := exists_bytesOf_eq_cons char
  rw [hbytes, List.length_cons, hlength]

def placeAfter (chars : List Char) : Nat :=
  (chars.flatMap bytesOf).length

theorem placeAfter_append (left right : List Char) :
    placeAfter (left ++ right) = placeAfter left + placeAfter right := by
  simp [placeAfter]

theorem placeAfter_eq_zero_iff {chars : List Char} : placeAfter chars = 0 ↔ chars = [] := by
  cases chars with
  | nil => simp [placeAfter]
  | cons char chars =>
      have hsize := char.utf8Size_pos
      simp [placeAfter, length_bytesOf]
      omega

theorem placeAfter_append_singleton (chars : List Char) (char : Char) :
    placeAfter (chars ++ [char]) = placeAfter chars + char.utf8Size := by
  simp [placeAfter, length_bytesOf]

/-- The byte after some characters is the first of the next one. -/
theorem getElem?_placeAfter (before : List Char) (char : Char) (after : List Char) :
    ∃ value, ((before ++ char :: after).flatMap bytesOf)[placeAfter before]? =
      some { value, char? := some char } := by
  obtain ⟨value, rest, hbytes, -⟩ := exists_bytesOf_eq_cons char
  exact ⟨value, by simp [placeAfter, hbytes]⟩

/-- A byte that comes with a character stands right after some characters. -/
theorem exists_placeAfter_of_getElem? {chars : List Char} {index : Nat} {value : UInt8}
    {char : Char} (hbyte : (chars.flatMap bytesOf)[index]? = some { value, char? := some char }) :
    ∃ before after, chars = before ++ char :: after ∧ index = placeAfter before := by
  induction chars generalizing index with
  | nil => simp at hbyte
  | cons first chars ih =>
      obtain ⟨byte, rest, hbytes, -, hrest⟩ := exists_bytesOf_eq_cons first
      rw [List.flatMap_cons] at hbyte
      by_cases hindex : index < (bytesOf first).length
      · rw [List.getElem?_append_left hindex, hbytes] at hbyte
        cases index with
        | zero =>
            cases hbyte
            exact ⟨[], chars, rfl, rfl⟩
        | succ index =>
            rw [List.getElem?_cons_succ] at hbyte
            have hnone := hrest _ (List.mem_of_getElem? hbyte)
            contradiction
      · rw [List.getElem?_append_right (Nat.le_of_not_lt hindex)] at hbyte
        obtain ⟨before, after, rfl, hplace⟩ := ih hbyte
        refine ⟨first :: before, after, rfl, ?_⟩
        simp only [placeAfter, List.flatMap_cons, List.length_append] at hplace ⊢
        omega

theorem fits_letter (text : List TextByte) (char : Char) :
    Fits text (letter char) = Takes text (.singleton char) :=
  fits_ofSet text _ _

/-- After some characters, a word fits exactly if it comes next. -/
theorem fitsInTurn_letters_iff (word before rest : List Char) (last : Nat) :
    FitsInTurn ((before ++ rest).flatMap bytesOf) (word.map letter) (placeAfter before) last ↔
      ∃ after, rest = word ++ after ∧ last = placeAfter (before ++ word) := by
  induction word generalizing before rest last with
  | nil => simp [FitsInTurn, eq_comm]
  | cons char word ih =>
      rw [List.map_cons, fitsInTurn_cons, fits_letter]
      constructor
      · rintro ⟨between, htakes, hword⟩
        obtain ⟨value, taken, hbyte, hset, rfl⟩ := htakes
        obtain rfl := (CharSet.contains_singleton char taken).mp hset
        cases rest with
        | nil => simp [placeAfter] at hbyte
        | cons next rest =>
            obtain ⟨other, hnext⟩ := getElem?_placeAfter before next rest
            cases hbyte.symm.trans hnext
            rw [← placeAfter_append_singleton, List.append_cons] at hword
            obtain ⟨after, rfl, rfl⟩ := (ih (before ++ [taken]) rest last).mp hword
            exact ⟨after, rfl, by simp⟩
      · rintro ⟨after, rfl, rfl⟩
        obtain ⟨value, hbyte⟩ := getElem?_placeAfter before char (word ++ after)
        refine ⟨placeAfter (before ++ [char]), ?_, ?_⟩
        · rw [placeAfter_append_singleton]
          exact ⟨value, char, hbyte, (CharSet.contains_singleton char char).mpr rfl, rfl⟩
        · have hrest := (ih (before ++ [char]) (word ++ after) _).mpr ⟨after, rfl, rfl⟩
          simpa using hrest

/-- A word that is not empty fits exactly where it stands in the text. -/
theorem fitsInTurn_word_iff {word : List Char} (hword : word ≠ []) (chars : List Char)
    (first last : Nat) :
    FitsInTurn (chars.flatMap bytesOf) (word.map letter) first last ↔
      ∃ before after, chars = before ++ word ++ after ∧ first = placeAfter before ∧
        last = placeAfter (before ++ word) := by
  constructor
  · intro hfits
    cases word with
    | nil => contradiction
    | cons char word =>
        have hstart := hfits
        rw [List.map_cons, fitsInTurn_cons, fits_letter] at hstart
        obtain ⟨-, ⟨value, taken, hbyte, -⟩, -⟩ := hstart
        obtain ⟨before, rest, rfl, rfl⟩ := exists_placeAfter_of_getElem? hbyte
        obtain ⟨after, heq, rfl⟩ :=
          (fitsInTurn_letters_iff (char :: word) before (taken :: rest) last).mp hfits
        exact ⟨before, after, by rw [heq, List.append_assoc], rfl, rfl⟩
  · rintro ⟨before, after, rfl, rfl, rfl⟩
    rw [List.append_assoc]
    exact (fitsInTurn_letters_iff word before (word ++ after) _).mpr ⟨after, rfl, rfl⟩

/-- A word without special characters matches a text only if the text ends with it, and it
does if the word stands nowhere else in the text. -/
theorem matchesEnd_word {word : List Char} (hword : word ≠ [])
    (hplain : ∀ char ∈ word, char ∉ specialChars) :
    ∃ pattern, read? word = some pattern ∧ ∀ text : String,
      (pattern.matchesEnd text = true → word <:+ text.toList) ∧
      (word <:+ text.toList →
        (∀ before after, text.toList = before ++ word ++ after → after = []) →
        pattern.matchesEnd text = true) := by
  obtain ⟨pattern, hread, hfits⟩ := read?_plain hplain
  have hiff : ∀ (text : String) (first last : Nat), Fits (bytesOfText text) pattern first last ↔
      ∃ before after, text.toList = before ++ word ++ after ∧ first = placeAfter before ∧
        last = placeAfter (before ++ word) := by
    intro text first last
    rw [hfits]
    exact fitsInTurn_word_iff hword text.toList first last
  have hwhole : ∀ text : String, (bytesOfText text).length = placeAfter text.toList :=
    fun _ => rfl
  refine ⟨pattern, hread, fun text => ⟨fun hmatches => ?_, fun hsuffix honly => ?_⟩⟩
  · obtain ⟨first, hend⟩ := exists_fits_of_matchesEnd hmatches
    obtain ⟨before, after, htext, -, hlength⟩ := (hiff text _ _).mp hend
    have hafter : after = [] := by
      rw [← placeAfter_eq_zero_iff]
      rw [hwhole text, htext, placeAfter_append] at hlength
      omega
    exact ⟨before, by rw [htext, hafter, List.append_nil]⟩
  · rw [matchesEnd_iff]
    · obtain ⟨before, hbefore⟩ := hsuffix
      refine ⟨placeAfter before, (hiff text _ _).mpr ⟨before, [], ?_, rfl, ?_⟩⟩
      · rw [hbefore, List.append_nil]
      · rw [hwhole text, hbefore]
    · intro first last hfirst
      obtain ⟨before, after, htext, -, rfl⟩ := (hiff text _ _).mp hfirst
      rw [hwhole text, htext, honly before after htext, List.append_nil]

end AverageLinkage.Pattern
