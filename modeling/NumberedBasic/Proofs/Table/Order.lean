import Mathlib.Data.List.Flatten
import Mathlib.Data.List.Forall2
import NumberedBasic.Table

/-!
# The order of execution

Arranging a program only moves its lines.  Where a line goes depends on
numbers alone, and lines that are written one after another with one number
stay together.
-/

namespace NumberedBasic

theorem Line.insertInto_perm (line : Line) (lines : List Line) :
    (line.insertInto lines).Perm (line :: lines) := by
  induction lines with
  | nil => exact List.Perm.refl _
  | cons head tail ih =>
      rw [Line.insertInto]
      split
      · exact List.Perm.refl _
      · exact (ih.cons head).trans (List.Perm.swap line head tail)

theorem Program.arrange_perm (program : Program) :
    program.arrange.Perm program := by
  induction program with
  | nil => exact List.Perm.nil
  | cons line program ih =>
      exact (line.insertInto_perm _).trans (ih.cons line)

theorem Program.mem_arrange {program : Program} {line : Line} :
    line ∈ program.arrange ↔ line ∈ program :=
  program.arrange_perm.mem_iff

theorem Table.mem_of_line? {table : Table} {index : Int} {line : Line}
    (hline : table.line? index = some line) : line ∈ table.lines := by
  rw [Table.line?] at hline
  split at hline
  · exact List.mem_of_getElem? hline
  · cases hline

/-! ## Where a line goes -/

theorem Line.precedes_congr {first first' second second' : Line}
    (hfirst : first'.number = first.number)
    (hsecond : second'.number = second.number) :
    first'.precedes second' = first.precedes second := by
  unfold Line.precedes
  rw [hfirst, hsecond]

theorem Line.precedes_self (line : Line) : line.precedes line = true := by
  rw [Line.precedes]
  cases line.number <;> simp

/-- A line stays in front of all if it comes before the first. -/
theorem Line.insertInto_of_head {line : Line} {lines : List Line}
    (hhead : ∀ other ∈ lines.head?, line.precedes other = true) :
    line.insertInto lines = line :: lines := by
  cases lines with
  | nil => rfl
  | cons head tail => simp [insertInto, hhead head rfl]

/-- A line passes those that it does not come before. -/
theorem Line.insertInto_append {line : Line} {front : List Line}
    (hfront : ∀ other ∈ front, line.precedes other = false)
    (back : List Line) :
    line.insertInto (front ++ back) = front ++ line.insertInto back := by
  induction front with
  | nil => rfl
  | cons head front ih =>
      have hhead := hfront head List.mem_cons_self
      have htail := ih fun other hother =>
        hfront other (List.mem_cons_of_mem _ hother)
      simp [insertInto, hhead, htail]

theorem Line.exists_place (line : Line) (lines : List Line) :
    ∃ front back, lines = front ++ back ∧
      (∀ other ∈ front, line.precedes other = false) ∧
      (∀ other ∈ back.head?, line.precedes other = true) := by
  induction lines with
  | nil => exact ⟨[], [], rfl, by simp, by simp⟩
  | cons head tail ih =>
      cases hhead : line.precedes head with
      | true => exact ⟨[], head :: tail, rfl, by simp, by simpa using hhead⟩
      | false =>
          obtain ⟨front, back, rfl, hfront, hback⟩ := ih
          exact ⟨head :: front, back, rfl, by simpa [hhead] using hfront, hback⟩

/-! ## Other lines with the same numbers -/

section Forall₂

variable {Answers : Line → Line → Prop}
  (hnumber : ∀ line line', Answers line line' → line'.number = line.number)

include hnumber

theorem Line.forall₂_insertInto {line line' : Line} {lines lines' : List Line}
    (hline : Answers line line') (hlines : List.Forall₂ Answers lines lines') :
    List.Forall₂ Answers (line.insertInto lines) (line'.insertInto lines') := by
  induction hlines with
  | nil => exact .cons hline .nil
  | cons hhead htail ih =>
      rw [insertInto, insertInto,
        precedes_congr (hnumber _ _ hline) (hnumber _ _ hhead)]
      split
      · exact .cons hline (.cons hhead htail)
      · exact .cons hhead ih

/-- Lines that answer to each other come to stand at the same places. -/
theorem Program.forall₂_arrange {program program' : Program}
    (hprogram : List.Forall₂ Answers program program') :
    List.Forall₂ Answers program.arrange program'.arrange := by
  refine List.rel_foldr ?_ .nil hprogram
  exact fun _ _ hline _ _ hlines => Line.forall₂_insertInto hnumber hline hlines

end Forall₂

/-! ## Several lines in the place of one -/

/-- The second list has several lines where the first has one. -/
def Expanded (line : Line) (parts : List Line) (lines lines' : List Line) :
    Prop :=
  ∃ front back, lines = front ++ line :: back ∧
    lines' = front ++ parts ++ back

section Expanded

variable {line : Line} {parts : List Line}

/-- Lines of one number, written one after another, come to stand where one
line of that number would. -/
theorem Line.expanded_insertInto
    (hnumber : ∀ part ∈ parts, part.number = line.number)
    (lines : List Line) :
    Expanded line parts (line.insertInto lines)
      (parts.foldr Line.insertInto lines) := by
  obtain ⟨front, back, rfl, hfront, hback⟩ := line.exists_place lines
  have hpass (part : Line) (hpart : part.number = line.number) :
      ∀ other ∈ front, part.precedes other = false := by
    intro other hother
    rw [Line.precedes_congr hpart rfl]
    exact hfront other hother
  have hstay (part : Line) (hpart : part.number = line.number) :
      part.insertInto (front ++ back) = front ++ part :: back := by
    rw [Line.insertInto_append (hpass part hpart), Line.insertInto_of_head]
    intro other hother
    rw [Line.precedes_congr hpart rfl]
    exact hback other hother
  refine ⟨front, back, hstay line rfl, ?_⟩
  induction parts with
  | nil => simp
  | cons part parts ih =>
      have hpart := hnumber part List.mem_cons_self
      have hothers (other : Line) (hother : other ∈ parts) :=
        hnumber other (List.mem_cons_of_mem _ hother)
      rw [List.foldr_cons, ih hothers]
      cases parts with
      | nil => simpa using hstay part hpart
      | cons second parts =>
          have hsecond := hothers second List.mem_cons_self
          rw [List.append_assoc, Line.insertInto_append (hpass part hpart),
            Line.insertInto_of_head]
          · simp
          · rintro _ ⟨⟩
            rw [Line.precedes_congr hpart hsecond]
            exact line.precedes_self

/-- Another line goes to the same place beside several lines as beside one. -/
theorem Expanded.insertInto {lines lines' : List Line}
    (hexpanded : Expanded line parts lines lines') (hparts : parts ≠ [])
    (hnumber : ∀ part ∈ parts, part.number = line.number) (other : Line) :
    Expanded line parts (other.insertInto lines) (other.insertInto lines') := by
  obtain ⟨front, back, rfl, rfl⟩ := hexpanded
  induction front with
  | nil =>
      have hsame (part : Line) (hpart : part ∈ parts) :
          other.precedes part = other.precedes line :=
        Line.precedes_congr rfl (hnumber part hpart)
      cases hline : other.precedes line with
      | true =>
          refine ⟨[other], back, Line.insertInto_of_head (by simpa), ?_⟩
          obtain ⟨part, rest, rfl⟩ := List.exists_cons_of_ne_nil hparts
          have hpart := hsame part List.mem_cons_self
          rw [List.nil_append, Line.insertInto_of_head]
          · simp
          · simpa [hpart] using hline
      | false =>
          refine ⟨[], other.insertInto back, ?_, ?_⟩
          · have hpass : ∀ other' ∈ [line], other.precedes other' = false := by
              simpa using hline
            exact Line.insertInto_append hpass back
          · apply Line.insertInto_append
            intro part hpart
            rw [List.nil_append] at hpart
            rw [hsame part hpart, hline]
  | cons head front ih =>
      cases hhead : other.precedes head with
      | true =>
          refine ⟨other :: head :: front, back, ?_, ?_⟩ <;>
            exact Line.insertInto_of_head (by simpa)
      | false =>
          obtain ⟨before, after, hlines, hlines'⟩ := ih
          have hpass : ∀ other' ∈ [head], other.precedes other' = false := by
            simpa using hhead
          exact ⟨head :: before, after,
            (Line.insertInto_append hpass _).trans (congrArg (head :: ·) hlines),
            (Line.insertInto_append hpass _).trans
              (congrArg (head :: ·) hlines')⟩

/-- A program that has several lines of one number in the place of one line is
arranged like the other, with these lines in its place. -/
theorem Program.expanded_arrange (hparts : parts ≠ [])
    (hnumber : ∀ part ∈ parts, part.number = line.number)
    (front back : Program) :
    Expanded line parts (arrange (front ++ line :: back))
      (arrange (front ++ parts ++ back)) := by
  induction front with
  | nil =>
      simp only [Program.arrange, List.nil_append, List.foldr_cons,
        List.foldr_append]
      exact Line.expanded_insertInto hnumber _
  | cons other front ih => exact ih.insertInto hparts hnumber other

end Expanded

/-! ## One line more -/

theorem Line.precedes_of_not_precedes {first second : Line}
    (hnot : second.precedes first = false) : first.precedes second = true := by
  unfold precedes at hnot ⊢
  cases hm : first.number <;> cases hn : second.number <;> simp_all
  omega

theorem Line.precedes_trans {first second third : Line}
    (hfirst : first.precedes second = true)
    (hsecond : second.precedes third = true) : first.precedes third = true := by
  unfold precedes at hfirst hsecond ⊢
  cases hm : first.number <;> cases hn : second.number <;>
    cases hk : third.number <;> simp_all
  omega

/-- The second list has one line more, in front of lines that it precedes. -/
def Inserted (line : Line) (lines lines' : List Line) : Prop :=
  ∃ front back, lines = front ++ back ∧ lines' = front ++ line :: back ∧
    ∀ other ∈ back.head?, line.precedes other = true

section Inserted

variable {line : Line}

theorem Line.inserted_insertInto (line : Line) (lines : List Line) :
    Inserted line lines (line.insertInto lines) := by
  obtain ⟨front, back, rfl, hfront, hback⟩ := line.exists_place lines
  refine ⟨front, back, rfl, ?_, hback⟩
  rw [Line.insertInto_append hfront, Line.insertInto_of_head hback]

/-- Another line goes to the same place, in front of the added line or behind
it. -/
theorem Inserted.insertInto {lines lines' : List Line}
    (hinserted : Inserted line lines lines') (other : Line) :
    Inserted line (other.insertInto lines) (other.insertInto lines') := by
  obtain ⟨front, back, rfl, rfl, hback⟩ := hinserted
  induction front with
  | nil =>
      cases hline : other.precedes line with
      | true =>
          have hfirst : ∀ head ∈ back.head?, other.precedes head = true :=
            fun head hhead => Line.precedes_trans hline (hback head hhead)
          exact ⟨[other], back, Line.insertInto_of_head hfirst,
            Line.insertInto_of_head (by simpa using hline), hback⟩
      | false =>
          refine ⟨[], other.insertInto back, rfl, ?_, ?_⟩
          · have hpass : ∀ other' ∈ [line], other.precedes other' = false := by
              simpa using hline
            exact Line.insertInto_append hpass back
          · have hother := Line.precedes_of_not_precedes hline
            intro head hhead
            cases back with
            | nil => rwa [← Option.some.inj hhead]
            | cons next back =>
                have hnext := hback next rfl
                rw [Line.insertInto] at hhead
                split at hhead
                · rwa [← Option.some.inj hhead]
                · rwa [← Option.some.inj hhead]
  | cons head front ih =>
      cases hhead : other.precedes head with
      | true =>
          exact ⟨other :: head :: front, back,
            Line.insertInto_of_head (by simpa),
            Line.insertInto_of_head (by simpa), hback⟩
      | false =>
          obtain ⟨before, after, hlines, hlines', hafter⟩ := ih
          have hpass : ∀ other' ∈ [head], other.precedes other' = false := by
            simpa using hhead
          exact ⟨head :: before, after,
            (Line.insertInto_append hpass _).trans (congrArg (head :: ·) hlines),
            (Line.insertInto_append hpass _).trans (congrArg (head :: ·) hlines'),
            hafter⟩

/-- A program with one line more is arranged like the other, with the line
somewhere in between. -/
theorem Program.inserted_arrange (front back : Program) (line : Line) :
    Inserted line (arrange (front ++ back)) (arrange (front ++ line :: back)) := by
  induction front with
  | nil => exact line.inserted_insertInto _
  | cons other front ih => exact ih.insertInto other

end Inserted

end NumberedBasic
