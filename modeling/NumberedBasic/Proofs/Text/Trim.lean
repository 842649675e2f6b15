import Mathlib.Data.List.TakeWhile
import NumberedBasic.Text.Digit

/-!
# Blanks around text

Trimming takes the blanks off both ends of a text and nothing else.  No digit
is blank, whatever its script, so that blanks end where digits start.
-/

namespace NumberedBasic.Text

/-- The tables of digits and of blanks have nothing in common. -/
theorem isDigit_eq_false_of_isBlank {c : Char} (hblank : isBlank c = true) :
    isDigit c = false := by
  rw [← Bool.not_eq_true, isDigit, digitValue?, Option.isSome_map,
    List.find?_isSome]
  rintro ⟨start, hstart, hdigit⟩
  rw [Bool.and_eq_true, decide_eq_true_eq, decide_eq_true_eq] at hdigit
  rw [isBlank, inRanges, List.any_eq_true] at hblank
  obtain ⟨range, hrange, hinside⟩ := hblank
  rw [Bool.and_eq_true, decide_eq_true_eq, decide_eq_true_eq] at hinside
  have hapart : ∀ range ∈ blankRanges, ∀ start ∈ zeroDigits,
      range.2 < start ∨ start + 10 ≤ range.1 := by
    decide
  have hdisjoint := hapart range hrange start hstart
  omega

theorem isBlank_eq_false_of_isDigit {c : Char} (hdigit : isDigit c = true) :
    isBlank c = false := by
  rw [← Bool.not_eq_true]
  intro hblank
  rw [isDigit_eq_false_of_isBlank hblank] at hdigit
  cases hdigit

/-! ## Searches that stop -/

/-- A search through characters that all pass stops in front of one that does
not. -/
theorem span_of_stop {passes : Char → Bool} {front back : List Char}
    (hfront : ∀ c ∈ front, passes c = true)
    (hback : ∀ c ∈ back.head?, passes c = false) :
    (front ++ back).takeWhile passes = front ∧
      (front ++ back).dropWhile passes = back := by
  rw [List.takeWhile_append_of_pos hfront, List.dropWhile_append_of_pos hfront]
  cases back with
  | nil => simp
  | cons c back => simp [hback c rfl]

/-- A search stops at once in front of what does not pass. -/
theorem span_of_head {passes : Char → Bool} {text : List Char}
    (hhead : ∀ c ∈ text.head?, passes c = false) :
    text.takeWhile passes = [] ∧ text.dropWhile passes = text :=
  span_of_stop (List.forall_mem_nil _) hhead

theorem head_dropWhile (passes : Char → Bool) (text : List Char) :
    ∀ c ∈ (text.dropWhile passes).head?, passes c = false := by
  intro c hc
  have hhead := List.head?_dropWhile_not passes text
  rw [Option.mem_def.mp hc] at hhead
  simpa using hhead

theorem isPrefix_reverse_dropWhile {cut : Char → Bool} (text : List Char) :
    (text.reverse.dropWhile cut).reverse <+: text := by
  rw [← List.reverse_suffix, List.reverse_reverse]
  exact List.dropWhile_suffix _

/-! ## Trimming -/

theorem infix_trim (text : List Char) : trim text <:+: text :=
  (isPrefix_reverse_dropWhile _).isInfix.trans (List.dropWhile_suffix _).isInfix

/-- What is left of a text without the blanks at its ends. -/
structure Trimmed (text core : List Char) : Prop where
  around : ∃ front back, text = front ++ core ++ back ∧
    (∀ c ∈ front, isBlank c = true) ∧ ∀ c ∈ back, isBlank c = true
  first : ∀ c ∈ core.head?, isBlank c = false
  last : ∀ c ∈ core.getLast?, isBlank c = false

theorem trimLeft_of_stop {front back : List Char}
    (hfront : ∀ c ∈ front, isBlank c = true)
    (hback : ∀ c ∈ back.head?, isBlank c = false) :
    trimLeft (front ++ back) = back :=
  (span_of_stop hfront hback).2

theorem trimRight_of_stop {front back : List Char}
    (hfront : ∀ c ∈ front.getLast?, isBlank c = false)
    (hback : ∀ c ∈ back, isBlank c = true) :
    trimRight (front ++ back) = front := by
  have hreversed : ∀ c ∈ front.reverse.head?, isBlank c = false := by
    rwa [List.head?_reverse]
  have hdropped := (span_of_stop
    (fun c hc => hback c (List.mem_reverse.mp hc)) hreversed).2
  rw [trimRight, List.reverse_append, hdropped, List.reverse_reverse]

theorem exists_trimRight (text : List Char) :
    ∃ back, text = trimRight text ++ back ∧ ∀ c ∈ back, isBlank c = true := by
  refine ⟨(text.reverse.takeWhile isBlank).reverse, ?_, ?_⟩
  · rw [trimRight, ← List.reverse_append, List.takeWhile_append_dropWhile,
      List.reverse_reverse]
  · intro c hc
    exact List.all_eq_true.mp List.all_takeWhile c (List.mem_reverse.mp hc)

theorem last_trimRight (text : List Char) :
    ∀ c ∈ (trimRight text).getLast?, isBlank c = false := by
  rw [trimRight, List.getLast?_reverse]
  exact head_dropWhile isBlank _

/-- Trimming leaves exactly what is between the blanks at the ends. -/
theorem trim_eq_iff {text core : List Char} :
    trim text = core ↔ Trimmed text core := by
  constructor
  · rintro rfl
    obtain ⟨back, hback, hblank⟩ := exists_trimRight (trimLeft text)
    refine ⟨⟨text.takeWhile isBlank, back, ?_, ?_, hblank⟩, ?_, ?_⟩
    · rw [trim, List.append_assoc, ← hback, trimLeft_append_dropped]
    · exact List.all_eq_true.mp List.all_takeWhile
    · intro c hc
      change c ∈ (trimRight (trimLeft text)).head? at hc
      have hhead : c ∈ (trimLeft text).head? := by
        rw [hback, List.head?_append, Option.mem_def.mp hc]
        rfl
      exact head_dropWhile isBlank text c hhead
    · exact last_trimRight _
  · rintro ⟨⟨front, back, rfl, hfront, hback⟩, hfirst, hlast⟩
    cases core with
    | nil =>
        have hall : ∀ c ∈ front ++ [] ++ back, isBlank c = true := by
          simpa [or_imp, forall_and] using And.intro hfront hback
        rw [trim, trimLeft, List.dropWhile_eq_nil_iff.mpr hall]
        rfl
    | cons c core =>
        rw [trim, List.append_assoc,
          trimLeft_of_stop hfront (by simpa using hfirst c rfl),
          trimRight_of_stop hlast hback]

end NumberedBasic.Text
