import Mathlib
import AverageLinkage.Pattern.Reader
import AverageLinkage.Proofs.CharRanges
import AverageLinkage.Proofs.PatternMachine

/-!
# Normal forms and what patterns fit

Putting patterns together in normal form changes the pattern but not the parts of a text
that it fits: sequences stay sequences and choices stay choices, whether or not their parts
were taken apart, made into a set or given a common beginning.
-/

namespace AverageLinkage.Pattern

open Machine (TextByte)

variable (text : List TextByte)

theorem takes_congr {set other : CharSet}
    (hchars : ∀ char, set.contains char = other.contains char) :
    Takes text set = Takes text other := by
  funext first last
  simp only [Takes, hchars]

theorem fits_ofSet (set : CharSet) (confined : Bool) :
    Fits text (ofSet set confined) = Takes text set :=
  takes_congr text (CharSet.contains_normal set)

/-! ## Sequences -/

def FitsInTurn (patterns : List Pattern) : Nat → Nat → Prop :=
  patterns.foldr (fun pattern rest => Relation.Comp (Fits text pattern) rest) Eq

theorem fitsInTurn_cons (pattern : Pattern) (rest : List Pattern) :
    FitsInTurn text (pattern :: rest) =
      Relation.Comp (Fits text pattern) (FitsInTurn text rest) := rfl

theorem fitsInTurn_append (left right : List Pattern) :
    FitsInTurn text (left ++ right) =
      Relation.Comp (FitsInTurn text left) (FitsInTurn text right) := by
  induction left with
  | nil => exact Relation.eq_comp.symm
  | cons pattern rest ih =>
      rw [List.cons_append, fitsInTurn_cons, fitsInTurn_cons, ih, Relation.comp_assoc]

theorem fitsInTurn_singleton (pattern : Pattern) : FitsInTurn text [pattern] = Fits text pattern :=
  Relation.comp_eq

theorem fits_chain (patterns : List Pattern) :
    Fits text (chain patterns) = FitsInTurn text patterns := by
  fun_induction chain patterns with
  | case1 => rfl
  | case2 part => exact (fitsInTurn_singleton text part).symm
  | case3 part rest _ ih => rw [Fits, ih, fitsInTurn_cons]

theorem fitsInTurn_parts (pattern : Pattern) :
    FitsInTurn text pattern.parts = Fits text pattern := by
  fun_induction parts pattern with
  | case1 => rfl
  | case2 first second ihfirst ihsecond =>
      rw [fitsInTurn_append, ihfirst, ihsecond, Fits]
  | case3 pattern => exact fitsInTurn_singleton text pattern

theorem fitsInTurn_flatMap_parts (patterns : List Pattern) :
    FitsInTurn text (patterns.flatMap parts) = FitsInTurn text patterns := by
  induction patterns with
  | nil => rfl
  | cons pattern rest ih =>
      rw [List.flatMap_cons, fitsInTurn_append, fitsInTurn_parts, ih, fitsInTurn_cons]

/-- Taking sequences apart and joining neighbours does not change what fits. -/
theorem fits_sequenceAll (patterns : List Pattern) :
    Fits text (sequenceAll patterns) = FitsInTurn text patterns := by
  rw [sequenceAll, fits_chain, fitsInTurn_flatMap_parts]

/-! ## Choices -/

def FitsSome (patterns : List Pattern) (first last : Nat) : Prop :=
  ∃ pattern ∈ patterns, Fits text pattern first last

theorem not_fits_never {first last : Nat} : ¬Fits text never first last := by
  rintro ⟨value, char, -, hchar, -⟩
  contradiction

theorem fits_branch (patterns : List Pattern) :
    Fits text (branch patterns) = FitsSome text patterns := by
  funext first last
  fun_induction branch patterns with
  | case1 => simp [FitsSome, not_fits_never]
  | case2 option => simp [FitsSome]
  | case3 option rest _ ih =>
      simp only [Fits, ih, FitsSome, List.exists_mem_cons_iff]

theorem fitsSome_append (left right : List Pattern) (first last : Nat) :
    FitsSome text (left ++ right) first last ↔
      FitsSome text left first last ∨ FitsSome text right first last := by
  simp only [FitsSome, List.mem_append, or_and_right, exists_or]

theorem fitsSome_options (pattern : Pattern) :
    FitsSome text pattern.options = Fits text pattern := by
  funext first last
  fun_induction options pattern with
  | case1 left right ihleft ihright =>
      rw [eq_iff_iff, fitsSome_append, ihleft, ihright]
      rfl
  | case2 pattern => simp [FitsSome]

theorem fitsSome_flatMap_options (patterns : List Pattern) :
    FitsSome text (patterns.flatMap options) = FitsSome text patterns := by
  funext first last
  rw [eq_iff_iff]
  induction patterns with
  | nil => rfl
  | cons pattern rest ih =>
      rw [List.flatMap_cons, fitsSome_append, fitsSome_options, ih]
      simp [FitsSome]

theorem takes_union (left right : CharSet) (first last : Nat) :
    Takes text (.union left right) first last ↔
      Takes text left first last ∨ Takes text right first last := by
  simp only [Takes, CharSet.contains_union, Bool.or_eq_true]
  grind

theorem fitsSome_of_mapM_set? {patterns : List Pattern} {sets : List CharSet}
    (hsets : patterns.mapM set? = some sets) (first last : Nat) :
    FitsSome text patterns first last ↔ Takes text (sets.foldr .union .none) first last := by
  induction patterns generalizing sets with
  | nil =>
      obtain rfl : sets = [] := by simpa using hsets.symm
      simp [FitsSome, Takes, CharSet.contains, CharSet.holdsCode]
  | cons pattern rest ih =>
      cases pattern with
      | one set confined =>
          obtain ⟨others, hothers, rfl⟩ : ∃ others, rest.mapM set? = some others ∧
              set :: others = sets := by
            simpa [set?, Option.bind_eq_some_iff] using hsets
          rw [List.foldr_cons, takes_union, ← ih hothers]
          simp [FitsSome, Fits]
      | _ => simp [set?] at hsets

/-- A choice among sets is their union. -/
theorem fits_of_setOf? {patterns : List Pattern} {pattern : Pattern}
    (hset : setOf? patterns = some pattern) : Fits text pattern = FitsSome text patterns := by
  rw [setOf?] at hset
  obtain ⟨sets, hsets, hset⟩ := Option.bind_eq_some_iff.mp hset
  split at hset
  · cases hset
    rw [fits_ofSet]
    funext first last
    exact propext (fitsSome_of_mapM_set? text hsets first last).symm
  · contradiction

theorem fits_alternatives (patterns : List Pattern) :
    Fits text (alternatives patterns) = FitsSome text patterns := by
  rw [alternatives.eq_def]
  split
  · next option => funext first last; simp [FitsSome]
  · cases hset : setOf? patterns with
    | none => exact fits_branch text patterns
    | some pattern => exact fits_of_setOf? text hset

/-- The common beginning of two lists is one of both. -/
theorem commonStart_isPrefix {α : Type} [DecidableEq α] (left right : List α) :
    commonStart left right <+: left ∧ commonStart left right <+: right := by
  fun_induction commonStart left right with
  | case1 item lefts rights ih => simpa using ih
  | case2 => simp
  | case3 => simp

theorem foldl_commonStart_isPrefix {α : Type} [DecidableEq α] (first : List α)
    (others : List (List α)) :
    ∀ items ∈ first :: others, others.foldl commonStart first <+: items := by
  induction others generalizing first with
  | nil => simp
  | cons next rest ih =>
      have hcommon := commonStart_isPrefix first next
      have hrest := ih (commonStart first next)
      simp only [List.forall_mem_cons] at hrest ⊢
      exact ⟨hrest.1.trans hcommon.1, hrest.1.trans hcommon.2, hrest.2⟩

theorem fitsInTurn_words (pattern : Pattern) :
    FitsInTurn text pattern.words.flatten = Fits text pattern := by
  rw [words, List.flatten_splitBy, fitsInTurn_parts]

/-- A beginning of a pattern can be taken off it. -/
theorem fits_eq_comp_of_isPrefix {pattern : Pattern} {start : List (List Pattern)}
    (hstart : start <+: pattern.words) :
    Fits text pattern = Relation.Comp (FitsInTurn text start.flatten)
      (Fits text (sequenceAll (pattern.words.drop start.length).flatten)) := by
  obtain ⟨rest, hrest⟩ := hstart
  rw [fits_sequenceAll, ← fitsInTurn_append, ← List.flatten_append, ← fitsInTurn_words, ← hrest,
    List.drop_left]

/-- A beginning that all options share can stand before the choice. -/
theorem fits_of_shareStart? {patterns : List Pattern} {pattern : Pattern}
    (hshare : shareStart? patterns = some pattern) :
    Fits text pattern = FitsSome text patterns := by
  rw [shareStart?] at hshare
  split at hshare
  · next first others hwords =>
    have hcommon := foldl_commonStart_isPrefix first others
    dsimp only at hshare
    rw [← hwords] at hshare hcommon
    generalize others.foldl commonStart first = start at hshare hcommon
    split at hshare
    · contradiction
    · cases hshare
      rw [fits_sequenceAll, fitsInTurn_append, fitsInTurn_singleton, fits_alternatives,
        fitsSome_flatMap_options, List.map_map]
      funext begins ends
      refine propext ⟨?_, ?_⟩
      · rintro ⟨between, hstart, rest, hrest, hfits⟩
        obtain ⟨option, hoption, rfl⟩ := List.mem_map.mp hrest
        refine ⟨option, hoption, ?_⟩
        rw [fits_eq_comp_of_isPrefix text (hcommon _ (List.mem_map_of_mem hoption))]
        exact ⟨between, hstart, hfits⟩
      · rintro ⟨option, hoption, hfits⟩
        rw [fits_eq_comp_of_isPrefix text (hcommon _ (List.mem_map_of_mem hoption))] at hfits
        obtain ⟨between, hstart, hrest⟩ := hfits
        exact ⟨between, hstart, _, List.mem_map_of_mem hoption, hrest⟩
  · contradiction

/-- Simplifying a choice does not change what fits. -/
theorem fits_choiceAll (patterns : List Pattern) :
    Fits text (choiceAll patterns) = FitsSome text patterns := by
  rw [choiceAll, ← fitsSome_flatMap_options]
  split
  · next option hoptions =>
    rw [hoptions]
    funext first last
    simp [FitsSome]
  · cases hset : setOf? (patterns.flatMap options) with
    | some pattern => exact fits_of_setOf? text hset
    | none =>
        cases hshare : shareStart? (patterns.flatMap options) with
        | some pattern => exact fits_of_shareStart? text hshare
        | none => exact fits_branch text _

/-! ## Repetitions -/

/-- A pattern of conditions takes no character. -/
theorem eq_of_isIdle {pattern : Pattern} {first last : Nat} (hidle : pattern.isIdle = true)
    (hfits : Fits text pattern first last) : first = last := by
  induction pattern generalizing first last with
  | empty => exact hfits
  | one set confined => contradiction
  | place condition => exact hfits.1
  | sequence one two ihone ihtwo =>
      rw [isIdle, Bool.and_eq_true] at hidle
      obtain ⟨between, hone, htwo⟩ := hfits
      exact (ihone hidle.1 hone).trans (ihtwo hidle.2 htwo)
  | choice left right ihleft ihright =>
      rw [isIdle, Bool.and_eq_true] at hidle
      rcases hfits with hleft | hright
      · exact ihleft hidle.1 hleft
      · exact ihright hidle.2 hright
  | optional greedy body ih =>
      cases hfits with
      | refl => rfl
      | single hbody => exact ih hidle hbody
  | anyTimes greedy body ih => contradiction
  | repeated greedy body ih => contradiction
  | enclosed start body ih => exact ih hidle hfits

/-- A part that takes no character may be left out or taken once instead of any number of
times. -/
theorem fits_zeroOrMore (greedy : Bool) (body : Pattern) :
    Fits text (zeroOrMore greedy body) = Relation.ReflTransGen (Fits text body) := by
  rw [zeroOrMore]
  split
  · next hidle =>
    funext first last
    refine propext ⟨Relation.ReflGen.to_reflTransGen, fun hmore => ?_⟩
    induction hmore with
    | refl => exact .refl
    | tail _ hbody ih => exact eq_of_isIdle text hidle hbody ▸ ih
  · rfl

/-- Repetition of a body, at least once. -/
theorem fits_oneOrMore (greedy : Bool) (body : Pattern) :
    Fits text (oneOrMore greedy body) = Relation.TransGen (Fits text body) := by
  rw [oneOrMore]
  split
  · next hidle =>
    funext first last
    refine propext ⟨.single, fun hmore => ?_⟩
    induction hmore with
    | single hbody => exact hbody
    | tail _ hbody ih => exact eq_of_isIdle text hidle hbody ▸ ih
  · rfl

/-! ## Reading -/

/-- A choice of a group is the sequence of its parts. -/
theorem Group.fits_currentChoice (group : Group) :
    Fits text group.currentChoice.value =
      FitsInTurn text (group.parts.reverse.filterMap Nested.value) := by
  rw [currentChoice, Nested.join, fits_sequenceAll, List.filterMap_map]
  rfl

/-- A group fits whatever one of its choices fits. -/
theorem Group.fits_content (group : Group) :
    Fits text group.content.value =
      FitsSome text ((group.currentChoice :: group.choices).reverse.map Nested.value) := by
  rw [content, Nested.join, fits_choiceAll]

end AverageLinkage.Pattern
