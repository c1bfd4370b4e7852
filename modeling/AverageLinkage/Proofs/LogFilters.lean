import Mathlib
import AverageLinkage.Log.Filter
import AverageLinkage.Proofs.LinesAndWords

/-!
# What filters admit

An event is logged within a span for which a directive allows its level, or if the decisive
directive allows it.  The decisive directive is the last of the most specific ones, among
those that are about the event and do not depend on spans.  Of those that depend on spans, a
directive counts unless a later one has the same aim.  Without a setting this comes down to
the level of the event.

A directive of one word sets a level if the word can be one, and otherwise selects a topic.
-/

namespace AverageLinkage

/-- Nothing is removed from a text without blanks. -/
theorem Text.trim_eq_self {text : List Char} (hplain : ∀ char ∈ text, Text.isBlank char = false) :
    Text.trim text = text := by
  have hdrop : ∀ chars : List Char, (∀ char ∈ chars, Text.isBlank char = false) →
      chars.dropWhile Text.isBlank = chars := by
    intro chars hchars
    cases chars with
    | nil => rfl
    | cons char rest => simp [hchars char List.mem_cons_self]
  rw [Text.trim, hdrop text hplain, hdrop text.reverse (by simpa using hplain),
    List.reverse_reverse]

namespace Directive

open Text (Bytes encode)

/-! ## Words -/

theorem isBetween_of_isUTF8FirstByte {byte : UInt8} (hfirst : byte.IsUTF8FirstByte) :
    (byte < 0x80 || 0xc0 ≤ byte) = true := by
  have hall : ∀ number : Fin 256, (UInt8.ofFin number).IsUTF8FirstByte →
      (UInt8.ofFin number < 0x80 || 0xc0 ≤ UInt8.ofFin number) = true := by decide +kernel
  exact hall byte.toFin hfirst

/-- The whole of a text is a part of it, since it begins and ends between characters. -/
theorem part_whole (text : List Char) :
    part (encode (String.ofList text)) 0 (encode (String.ofList text)).length = .ok text := by
  have hstart : isBetweenChars (encode (String.ofList text)) 0 = true := by
    rw [isBetweenChars, Text.encode_ofList]
    cases text with
    | nil => rfl
    | cons char rest =>
        have hbyte := UInt8.isUTF8FirstByte_getElem_zero_utf8EncodeChar (c := char)
        rw [List.flatMap_cons, List.getElem?_append_left (by simp [char.utf8Size_pos]),
          List.getElem?_eq_getElem (by simp [char.utf8Size_pos])]
        exact isBetween_of_isUTF8FirstByte hbyte
  have hend : isBetweenChars (encode (String.ofList text))
      (encode (String.ofList text)).length = true := by
    simp [isBetweenChars]
  have hdecode := Text.decode_eq_some_iff.mpr (rfl : encode (String.ofList text) = _)
  rw [part, hstart, hend]
  simp [hdecode]

/-- A word goes on until something separates it. -/
theorem readFrom_word {word : List Char} (hplain : ∀ char ∈ word, char ≠ '=' ∧ char ≠ '[')
    (text : Bytes) (position first : Nat) (directive : Directive) :
    readFrom text position directive (.word first) word = finish text directive (.word first) := by
  induction word generalizing position with
  | nil => rfl
  | cons char rest ih =>
      obtain ⟨hchar, hrest⟩ := List.forall_mem_cons.mp hplain
      rw [readFrom, step]
      simp only [hchar.1, hchar.2, if_false]
      exact ih hrest _

/-- A single word is a level if it can be one, and otherwise a topic. -/
theorem read_word {first : Char} {rest : List Char} (hfirst : beginsWord first = true)
    (hplain : ∀ char ∈ first :: rest, char ≠ '=' ∧ char ≠ '[' ∧ Text.isBlank char = false) :
    read (first :: rest) = .ok
      (match depth? (first :: rest) with
      | some depth => { depth }
      | none => { topic? := some (String.ofList (first :: rest)), depth := fullDepth }) := by
  have hword : ∀ char ∈ rest, char ≠ '=' ∧ char ≠ '[' := by
    intro char hchar
    obtain ⟨hequals, hbracket, -⟩ := hplain char (List.mem_cons_of_mem _ hchar)
    exact ⟨hequals, hbracket⟩
  rw [read, Text.trim_eq_self fun char hchar => (hplain char hchar).2.2, readFrom, step]
  simp only [(hplain first List.mem_cons_self).2.1, hfirst, if_false, if_true]
  change readFrom _ _ _ (.word 0) rest = _
  rw [readFrom_word hword, finish, part_whole]
  change (match depth? (first :: rest) with | some depth => _ | none => _) = _
  split <;> rfl

/-! ## The order of directives -/

instance : Std.TransCmp compareRank :=
  inferInstanceAs (Std.TransCmp
    (compareLex
      (compareLex (compareOn topicRank) (compareOn fun directive => directive.demands.length))
      (compareOn fun directive => directive.demands.map FieldDemand.name)))

/-- Directives can be compared in either order. -/
theorem compareRank_swap (one other : Directive) :
    one.compareRank other = (other.compareRank one).swap :=
  Std.OrientedCmp.eq_swap

/-- A directive is the last of the most specific ones. -/
def Decides (directives : List Directive) (decisive : Directive) : Prop :=
  ∃ before after, directives = before ++ decisive :: after ∧
    (∀ other ∈ before, (other.compareRank decisive).isLE = true) ∧
    ∀ other ∈ after, other.compareRank decisive = .lt

/-- A later directive that is less specific changes nothing. -/
theorem Decides.append_of_lt {directives : List Directive} {decisive last : Directive}
    (hdecides : Decides directives decisive) (hlast : last.compareRank decisive = .lt) :
    Decides (directives ++ [last]) decisive := by
  obtain ⟨before, after, rfl, hbefore, hafter⟩ := hdecides
  refine ⟨before, after ++ [last], by simp, hbefore, ?_⟩
  simpa [or_imp, forall_and] using ⟨hafter, hlast⟩

/-- A later directive that is as specific takes over. -/
theorem Decides.append_of_not_lt {directives : List Directive} {decisive last : Directive}
    (hdecides : Decides directives decisive) (hlast : last.compareRank decisive ≠ .lt) :
    Decides (directives ++ [last]) last := by
  have hle : (decisive.compareRank last).isLE = true := by
    rw [compareRank_swap]
    cases hrank : last.compareRank decisive <;> simp_all
  obtain ⟨before, after, rfl, hbefore, hafter⟩ := hdecides
  refine ⟨before ++ decisive :: after, [], rfl, ?_, by simp⟩
  intro other hother
  have hother : (other.compareRank decisive).isLE = true := by
    rcases List.mem_append.mp hother with hmem | hmem
    · exact hbefore other hmem
    · rcases List.mem_cons.mp hmem with rfl | hmem
      · exact Std.ReflCmp.isLE_rfl
      · rw [hafter other hmem]
        rfl
  exact Std.TransCmp.isLE_trans hother hle

/-- A directive that comes after another cannot be less specific and at least as specific. -/
theorem eq_of_append_eq {one other : Directive} {after after' before' middle : List Directive}
    (hlist : one :: after = middle ++ other :: after')
    (hafter : ∀ later ∈ after, later.compareRank one = .lt)
    (hbefore : ∀ earlier ∈ before' ++ middle, (earlier.compareRank other).isLE = true) :
    one = other := by
  cases middle with
  | nil => exact (List.cons.inj hlist).1
  | cons first middle =>
      obtain ⟨rfl, rfl⟩ := List.cons.inj hlist
      have hlt := hafter other (by simp)
      have hle := hbefore one (by simp)
      rw [compareRank_swap, hlt] at hle
      contradiction

/-- At most one directive decides. -/
theorem Decides.unique {directives : List Directive} {one other : Directive}
    (hone : Decides directives one) (hother : Decides directives other) : one = other := by
  obtain ⟨before, after, rfl, hbefore, hafter⟩ := hone
  obtain ⟨before', after', heq, hbefore', hafter'⟩ := hother
  rcases List.append_eq_append_iff.mp heq with ⟨middle, rfl, hlist⟩ | ⟨middle, rfl, hlist⟩
  · exact eq_of_append_eq hlist hafter hbefore'
  · exact (eq_of_append_eq hlist hafter' hbefore).symm

/-! ## Replaced directives -/

theorem sameAim_iff {left right : Directive} :
    left.sameAim right = true ↔
      left.topic? = right.topic? ∧ left.span? = right.span? ∧ left.demands = right.demands := by
  simp [sameAim, and_assoc]

theorem sameAim_trans {first second third : Directive} (hfirst : first.sameAim second = true)
    (hsecond : second.sameAim third = true) : first.sameAim third = true := by
  rw [sameAim_iff] at hfirst hsecond ⊢
  exact ⟨hfirst.1.trans hsecond.1, hfirst.2.1.trans hsecond.2.1, hfirst.2.2.trans hsecond.2.2⟩

theorem isScoped_of_sameAim {left right : Directive} (haim : left.sameAim right = true)
    (hscoped : left.isScoped = true) : right.isScoped = true := by
  obtain ⟨-, hspan, hdemands⟩ := sameAim_iff.mp haim
  rw [isScoped, ← hspan, ← hdemands]
  exact hscoped

end Directive

namespace LogFilter

/-! ## Directives on spans -/

theorem scopedDirectives_cons (directive : Directive) (directives : List Directive) :
    scopedDirectives ⟨directive :: directives⟩ =
      if directive.isScoped && !(scopedDirectives ⟨directives⟩).any directive.sameAim then
        directive :: scopedDirectives ⟨directives⟩
      else scopedDirectives ⟨directives⟩ := by
  simp only [scopedDirectives, List.foldl_reverse, List.foldr_cons]

theorem mem_scopedDirectives_cons_iff {directive first : Directive} {rest : List Directive} :
    directive ∈ scopedDirectives ⟨first :: rest⟩ ↔
      (directive = first ∧ first.isScoped = true ∧
        (scopedDirectives ⟨rest⟩).any first.sameAim = false) ∨
      directive ∈ scopedDirectives ⟨rest⟩ := by
  rw [scopedDirectives_cons]
  split
  · next hkept =>
    rw [Bool.and_eq_true, Bool.not_eq_true'] at hkept
    rw [List.mem_cons, and_iff_left hkept]
  · next hleft =>
    rw [Bool.and_eq_true, Bool.not_eq_true'] at hleft
    exact (or_iff_right fun hfirst => hleft hfirst.2).symm

theorem mem_of_mem_scopedDirectives {directives : List Directive} {directive : Directive}
    (hmem : directive ∈ scopedDirectives ⟨directives⟩) : directive ∈ directives := by
  induction directives with
  | nil => contradiction
  | cons first rest ih =>
      rcases mem_scopedDirectives_cons_iff.mp hmem with ⟨rfl, -⟩ | hrest
      · exact List.mem_cons_self
      · exact List.mem_cons_of_mem _ (ih hrest)

/-- Whether a directive is replaced can be seen from all directives as well. -/
theorem any_sameAim_scopedDirectives {directive : Directive} (hscoped : directive.isScoped = true)
    (directives : List Directive) :
    (scopedDirectives ⟨directives⟩).any directive.sameAim = directives.any directive.sameAim := by
  rw [Bool.eq_iff_iff, List.any_eq_true, List.any_eq_true]
  constructor
  · rintro ⟨kept, hkept, hsame⟩
    exact ⟨kept, mem_of_mem_scopedDirectives hkept, hsame⟩
  · rintro ⟨later, hlater, haim⟩
    -- The last of the directives with this aim is kept.
    induction directives with
    | nil => contradiction
    | cons first rest ih =>
        rcases List.mem_cons.mp hlater with rfl | hrest
        · have hlater := Directive.isScoped_of_sameAim haim hscoped
          cases hreplaced : (scopedDirectives ⟨rest⟩).any later.sameAim with
          | false =>
              have hkept := mem_scopedDirectives_cons_iff.mpr (.inl ⟨rfl, hlater, hreplaced⟩)
              exact ⟨later, hkept, haim⟩
          | true =>
              obtain ⟨kept, hkept, hsame⟩ := List.any_eq_true.mp hreplaced
              exact ⟨kept, mem_scopedDirectives_cons_iff.mpr (.inr hkept),
                Directive.sameAim_trans haim hsame⟩
        · obtain ⟨kept, hkept, hsame⟩ := ih hrest
          exact ⟨kept, mem_scopedDirectives_cons_iff.mpr (.inr hkept), hsame⟩

/-- Of the directives that depend on spans those count that no later one replaces. -/
theorem mem_scopedDirectives_iff {directives : List Directive} {directive : Directive} :
    directive ∈ scopedDirectives ⟨directives⟩ ↔
      directive.isScoped = true ∧ ∃ before after, directives = before ++ directive :: after ∧
        after.any directive.sameAim = false := by
  induction directives with
  | nil => simp [scopedDirectives]
  | cons first rest ih =>
      rw [mem_scopedDirectives_cons_iff, ih]
      constructor
      · rintro (⟨rfl, hscoped, hlast⟩ | ⟨hscoped, before, after, rfl, hlast⟩)
        · rw [any_sameAim_scopedDirectives hscoped] at hlast
          exact ⟨hscoped, [], rest, rfl, hlast⟩
        · exact ⟨hscoped, first :: before, after, rfl, hlast⟩
      · rintro ⟨hscoped, before, after, heq, hlast⟩
        cases before with
        | nil =>
            obtain ⟨rfl, rfl⟩ := List.cons.inj heq
            exact .inl ⟨rfl, hscoped, by rwa [any_sameAim_scopedDirectives hscoped]⟩
        | cons _ before =>
            obtain ⟨-, rfl⟩ := List.cons.inj heq
            exact .inr ⟨hscoped, before, after, rfl, hlast⟩

/-! ## Events -/

open Directive (Decides)

variable (filter : LogFilter)

theorem decisive?_cases (event : Event) :
    (filter.decisive? event = none ∧ filter.candidates event = []) ∨
      ∃ decisive, filter.decisive? event = some decisive ∧
        Decides (filter.candidates event) decisive := by
  rw [decisive?]
  generalize filter.candidates event = directives
  induction directives using List.reverseRecOn with
  | nil => exact .inl ⟨rfl, rfl⟩
  | append_singleton directives last ih =>
      right
      rw [List.foldl_append]
      rcases ih with ⟨-, rfl⟩ | ⟨decisive, hsome, hdecides⟩
      · exact ⟨last, rfl, [], [], rfl, by simp, by simp⟩
      · rw [hsome]
        by_cases hlt : last.compareRank decisive = .lt
        · exact ⟨decisive, if_pos hlt, hdecides.append_of_lt hlt⟩
        · exact ⟨last, if_neg hlt, hdecides.append_of_not_lt hlt⟩

/-- The directive found is the one that decides. -/
theorem decisive?_eq_some_iff (event : Event) (directive : Directive) :
    filter.decisive? event = some directive ↔ Decides (filter.candidates event) directive := by
  rcases filter.decisive?_cases event with ⟨hnone, hempty⟩ | ⟨decisive, hsome, hdecides⟩
  · simp [hnone, hempty, Decides]
  · rw [hsome, Option.some_inj]
    constructor
    · rintro rfl
      exact hdecides
    · exact hdecides.unique

theorem le_foldl_max_iff {level depth : Nat} {directives : List Directive} :
    level ≤ directives.foldl (fun depth directive => max depth directive.depth) depth ↔
      level ≤ depth ∨ ∃ directive ∈ directives, level ≤ directive.depth := by
  induction directives generalizing depth with
  | nil => simp
  | cons directive rest ih => simp [ih, or_assoc]

/-- A span allows a level if a directive that covers it does. -/
theorem le_spanDepth_iff {level : Nat} (hlevel : 0 < level) (span : Span) :
    level ≤ filter.spanDepth span ↔
      ∃ directive ∈ filter.scopedDirectives, directive.coversSpan span = true ∧
        (∀ demand ∈ directive.demands, demand.metBy span = true) ∧ level ≤ directive.depth := by
  rw [spanDepth, le_foldl_max_iff, or_iff_right (by omega)]
  simp [and_assoc]

theorem order_pos (level : Level) : 0 < level.order := by
  cases level <;> decide

/-- An event is logged within a span for which a directive allows its level, or if the
decisive directive does. -/
theorem admits_iff (record : Record) :
    filter.admits record = true ↔
      (filter.heedsSpans = true ∧ ∃ span ∈ record.scope, ∃ directive ∈ filter.scopedDirectives,
        directive.coversSpan span = true ∧
          (∀ demand ∈ directive.demands, demand.metBy span = true) ∧
          record.event.level.order ≤ directive.depth) ∨
      ∃ directive, Decides (filter.candidates record.event) directive ∧
        record.event.level.order ≤ directive.depth := by
  have hpos := order_pos record.event.level
  simp only [admits, Bool.or_eq_true, Bool.and_eq_true, List.any_eq_true, decide_eq_true_eq,
    filter.le_spanDepth_iff hpos, Option.any_eq_true, decisive?_eq_some_iff]

/-- Without a setting the level of an event decides. -/
theorem admits_default_iff (record : Record) :
    default.admits record = true ↔ record.event.level.order ≤ Level.info.order := by
  have hcandidates : default.candidates record.event = [{ depth := Level.info.order }] := rfl
  have hscoped : default.scopedDirectives = [] := rfl
  rw [admits_iff, hcandidates, hscoped]
  constructor
  · rintro (⟨-, _, -, _, hmem, -⟩ | ⟨directive, hdecides, hle⟩)
    · contradiction
    · obtain rfl := hdecides.unique ⟨[], [], rfl, by simp, by simp⟩
      exact hle
  · intro hle
    exact .inr ⟨_, ⟨[], [], rfl, by simp, by simp⟩, hle⟩

end LogFilter

end AverageLinkage
