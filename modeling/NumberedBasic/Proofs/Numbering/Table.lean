import Mathlib
import NumberedBasic.Proofs.Machine.Alignment
import NumberedBasic.Proofs.Table.Order

/-!
# The table of a renumbered program

Under numbers that keep their order a program is arranged in the same way, and
every search for a line or for data finds the same place.
-/

namespace NumberedBasic

/-! ## Searches that agree on the items of a list -/

section Searches

variable {α : Type} {items : List α} {first second : α → Bool}

theorem findIdx?_congr (hsame : ∀ item ∈ items, first item = second item) :
    items.findIdx? first = items.findIdx? second := by
  induction items with
  | nil => rfl
  | cons item items ih =>
      have hothers := ih fun other hother =>
        hsame other (List.mem_cons_of_mem _ hother)
      rw [List.findIdx?_cons, List.findIdx?_cons, hothers,
        hsame item List.mem_cons_self]

theorem takeWhile_congr (hsame : ∀ item ∈ items, first item = second item) :
    items.takeWhile first = items.takeWhile second := by
  induction items with
  | nil => rfl
  | cons item items ih =>
      have hothers := ih fun other hother =>
        hsame other (List.mem_cons_of_mem _ hother)
      rw [List.takeWhile_cons, List.takeWhile_cons, hothers,
        hsame item List.mem_cons_self]

end Searches

/-! ## The renumbered table -/

section Table

variable {f : Int → Int} {numbers : Set Int}

theorem Line.precedes_renumber (hf : StrictMonoOn f numbers)
    {first second : Line} (hfirst : ∀ number ∈ first.number, number ∈ numbers)
    (hsecond : ∀ number ∈ second.number, number ∈ numbers) :
    (first.renumber f).precedes (second.renumber f) =
      first.precedes second := by
  unfold Line.precedes Line.renumber
  cases hm : first.number with
  | none => cases second.number <;> rfl
  | some m =>
      cases hn : second.number with
      | none => rfl
      | some n =>
          have hle := hf.le_iff_le (hfirst m hm) (hsecond n hn)
          simp only [Option.map_some, hle]

theorem Line.insertInto_renumber (hf : StrictMonoOn f numbers) {line : Line}
    (hline : ∀ number ∈ line.number, number ∈ numbers) {lines : List Line}
    (hlines : ∀ other ∈ lines, ∀ number ∈ other.number, number ∈ numbers) :
    (line.renumber f).insertInto (lines.map (Line.renumber f)) =
      (line.insertInto lines).map (Line.renumber f) := by
  induction lines with
  | nil => rfl
  | cons head tail ih =>
      have hhead := Line.precedes_renumber hf hline
        (hlines head List.mem_cons_self)
      have htail := ih fun other hother =>
        hlines other (List.mem_cons_of_mem _ hother)
      simp only [List.map_cons, Line.insertInto, hhead, htail]
      split <;> rfl

theorem Program.arrange_renumber (hf : StrictMonoOn f numbers)
    {program : Program}
    (hprogram : ∀ line ∈ program, ∀ number ∈ line.number, number ∈ numbers) :
    (program.renumber f).arrange =
      program.arrange.map (Line.renumber f) := by
  induction program with
  | nil => rfl
  | cons line program ih =>
      have hline := hprogram line List.mem_cons_self
      have hothers (other : Line) (hother : other ∈ program) :=
        hprogram other (List.mem_cons_of_mem _ hother)
      have harranged := ih hothers
      simp only [Program.renumber, Program.arrange, List.map_cons,
        List.foldr_cons] at harranged ⊢
      rw [harranged]
      apply Line.insertInto_renumber hf hline
      intro other hother
      exact hothers other (Program.mem_arrange.mp hother)

end Table

/-- The same places under other numbers. -/
def renumbering (f : Int → Int) : Alignment where
  number := f
  index := id
  Place := (· = ·)

section Run

variable {f : Int → Int} {program : Program}

theorem Program.mem_numbers_of_number {line : Line} (hline : line ∈ program)
    {number : Int} (hnumber : number ∈ line.number) :
    number ∈ program.numbers := by
  apply List.mem_flatMap.mpr
  exact ⟨line, hline, List.mem_append_left _ (Option.mem_toList.mpr hnumber)⟩

theorem Program.mem_numbers_of_statement {line : Line} (hline : line ∈ program)
    {number : Int} (hnumber : number ∈ line.statement.numbers) :
    number ∈ program.numbers := by
  apply List.mem_flatMap.mpr
  exact ⟨line, hline, List.mem_append_right _ hnumber⟩

variable (hf : StrictMonoOn f {number | number ∈ program.numbers})

include hf

theorem Table.lines_renumber :
    (Table.ofProgram (program.renumber f)).lines =
      (Table.ofProgram program).lines.map (Line.renumber f) :=
  Program.arrange_renumber hf fun _ hline _ hnumber =>
    Program.mem_numbers_of_number hline hnumber

theorem Table.line?_renumber (index : Int) :
    (Table.ofProgram (program.renumber f)).line? index =
      ((Table.ofProgram program).line? index).map (Line.renumber f) := by
  unfold Table.line?
  rw [Table.lines_renumber hf]
  split
  · exact List.getElem?_map
  · rfl

theorem Table.number_renumber_iff {target : Option Int}
    (htarget : ∀ number ∈ target, number ∈ program.numbers) {line : Line}
    (hline : line ∈ (Table.ofProgram program).lines) :
    (line.renumber f).number = target.map f ↔ line.number = target := by
  rw [Line.number_renumber]
  constructor
  · intro heq
    cases hnumber : line.number with
    | none => cases target <;> simp_all
    | some number =>
        cases target with
        | none => simp_all
        | some wanted =>
            have hmem := Program.mem_numbers_of_number
              (Program.mem_arrange.mp hline) hnumber
            rw [hnumber, Option.map_some, Option.map_some,
              Option.some.injEq] at heq
            rw [hf.injOn hmem (htarget wanted rfl) heq]
  · rintro rfl
    rfl

theorem Table.isDataFrom_renumber {target : Int}
    (htarget : target ∈ program.numbers) {line : Line}
    (hline : line ∈ (Table.ofProgram program).lines) :
    isDataFrom (f target) (line.renumber f) = isDataFrom target line := by
  unfold Table.isDataFrom
  rw [Line.isData_renumber, Line.number_renumber]
  cases hnumber : line.number with
  | none => rfl
  | some number =>
      have hmem := Program.mem_numbers_of_number
        (Program.mem_arrange.mp hline) hnumber
      simp only [Option.map_some, hf.le_iff_le htarget hmem]

theorem Table.tables_renumbering :
    (renumbering f).Tables
      {target | ∀ number ∈ target, number ∈ program.numbers}
      {number | number ∈ program.numbers}
      (Table.ofProgram program) (Table.ofProgram (program.renumber f)) where
  data := by
    have hlines := Table.lines_renumber hf
    simp only [Table.ofProgram] at hlines ⊢
    rw [hlines, List.flatMap_map]
    simp only [Line.data_renumber]
  findLine target htarget := by
    have hfound : (Table.ofProgram (program.renumber f)).lines.findIdx?
        (·.number = target.map f) =
          (Table.ofProgram program).lines.findIdx? (·.number = target) := by
      rw [Table.lines_renumber hf, List.findIdx?_map]
      apply findIdx?_congr
      intro line hline
      exact decide_eq_decide.mpr (Table.number_renumber_iff hf htarget hline)
    change outcomesRelated _ _ _
      ((Table.ofProgram (program.renumber f)).findLine (target.map f))
    unfold Table.findLine
    rw [hfound]
    split <;> rfl
  dataPosition target htarget := by
    have htaken : ((Table.ofProgram program).lines.takeWhile
        ((!isDataFrom (f target) ·) ∘ Line.renumber f)) =
          (Table.ofProgram program).lines.takeWhile (!isDataFrom target ·) := by
      apply takeWhile_congr
      intro line hline
      exact congrArg (!·) (Table.isDataFrom_renumber hf htarget hline)
    unfold Table.dataPosition
    change ((((Table.ofProgram (program.renumber f)).lines.takeWhile
      (!isDataFrom (f target) ·)).flatMap Line.data).length) = _
    rw [Table.lines_renumber hf, List.takeWhile_map, htaken, List.flatMap_map]
    simp only [Line.data_renumber]

end Run

end NumberedBasic
