import Mathlib.Data.List.TakeWhile
import NumberedBasic.Proofs.Table.Sorting

/-!
# The data behind a position

The position of a line number in the data is counted over the statements in
front of the first DATA that qualifies.  What lies behind it are the values of
all DATA that qualify, sorted by their numbers, and of those without a number.
-/

namespace NumberedBasic

/-- The values of the DATA at or after a line number, by ascending numbers and,
for one number, as they were written, and then those of the DATA without a
number as they were written; nothing if no DATA has such a number. -/
def Program.dataFrom (program : Program) (target : Int) : List Value :=
  let chosen := program.filter (Table.isDataFrom target)
  if chosen.isEmpty then []
  else
    (chosen.mergeSort Line.precedes ++
      program.filter (·.number = none)).flatMap Line.data

/-! ## Some lines of the table -/

theorem Line.precedes_total (first second : Line) :
    (first.precedes second || second.precedes first) = true := by
  cases hprecedes : first.precedes second with
  | true => rfl
  | false => exact precedes_of_not_precedes hprecedes

theorem inOrder_mergeSort (lines : List Line) :
    InOrder (lines.mergeSort Line.precedes) := by
  apply List.pairwise_mergeSort _ Line.precedes_total
  exact fun _ _ _ => Line.precedes_trans

theorem rearranged_mergeSort (lines : List Line) :
    Rearranged lines (lines.mergeSort Line.precedes) := by
  intro number
  have horder : InOrder (lines.filter (·.number = number)) := by
    apply List.pairwise_of_forall_mem_list
    intro first hfirst second hsecond
    have hnumber := of_decide_eq_true (List.mem_filter.mp hfirst).2
    have hnumber' := of_decide_eq_true (List.mem_filter.mp hsecond).2
    rw [Line.precedes_congr rfl (hnumber'.trans hnumber.symm),
      first.precedes_self]
  -- lines of one number are in order, and so they are not moved
  have hkept : (lines.filter (·.number = number)).Sublist
      ((lines.mergeSort Line.precedes).filter (·.number = number)) := by
    have hsublist : (lines.filter (·.number = number)).Sublist
        (lines.mergeSort Line.precedes) := by
      apply List.sublist_mergeSort _ Line.precedes_total horder
        List.filter_sublist
      exact fun _ _ _ => Line.precedes_trans
    simpa using hsublist.filter (·.number = number)
  apply (hkept.eq_of_length _).symm
  rw [← List.countP_eq_length_filter, ← List.countP_eq_length_filter,
    (List.mergeSort_perm lines _).countP_eq]

/-- Lines chosen from the table are the sorted lines chosen from the
program. -/
theorem Program.filter_arrange (program : Program) (chosen : Line → Bool) :
    program.arrange.filter chosen =
      (program.filter chosen).mergeSort Line.precedes := by
  apply Rearranged.eq _ (inOrder_mergeSort _)
    (program.inOrder_arrange.filter _)
  intro number
  rw [rearranged_mergeSort, List.filter_comm, program.rearranged_arrange,
    List.filter_comm]

/-! ## Where the data begins -/

theorem Line.data_of_isData {line : Line} (hdata : line.isData = false) :
    line.data = [] := by
  unfold isData at hdata
  unfold data
  split at hdata
  · cases hdata
  · rfl

/-- Lines that hold no data may be left out. -/
theorem flatMap_data_filter {lines : List Line} {chosen : Line → Bool}
    (hothers : ∀ line ∈ lines, chosen line = false → line.data = []) :
    (lines.filter chosen).flatMap Line.data = lines.flatMap Line.data := by
  induction lines with
  | nil => rfl
  | cons line lines ih =>
      rw [List.forall_mem_cons] at hothers
      rw [List.filter_cons, List.flatMap_cons, ← ih hothers.2]
      split
      · rfl
      next hnot => rw [hothers.1 (by simpa using hnot), List.nil_append]

theorem Table.number_of_isDataFrom {target : Int} {line : Line}
    (hfrom : isDataFrom target line = true) :
    ∃ number, line.number = some number ∧ target ≤ number := by
  rw [isDataFrom, Bool.and_eq_true] at hfrom
  cases hnumber : line.number with
  | none => simp [hnumber] at hfrom
  | some number => exact ⟨number, rfl, by simpa [hnumber] using hfrom.2⟩

section InOrder

variable {lines : List Line} (hlines : InOrder lines) {target : Int}

include hlines

/-- Among lines with numbers from the target on, and lines without, all DATA
count. -/
theorem InOrder.flatMap_data
    (hfrom : ∀ line ∈ lines, ∀ number ∈ line.number, target ≤ number) :
    lines.flatMap Line.data =
      (lines.filter (Table.isDataFrom target) ++
        lines.filter (·.number = none)).flatMap Line.data := by
  have hnumbered : lines.filter (Table.isDataFrom target) =
      (lines.filter (·.number.isSome)).filter (Table.isDataFrom target) := by
    rw [List.filter_filter]
    apply List.filter_congr
    intro line _
    cases hchosen : Table.isDataFrom target line with
    | false => rfl
    | true =>
        obtain ⟨number, hnumber, -⟩ := Table.number_of_isDataFrom hchosen
        simp [hnumber]
  rw [hnumbered, List.flatMap_append, flatMap_data_filter,
    ← List.flatMap_append, hlines.filter_isSome_append]
  intro line hline hnot
  apply Line.data_of_isData
  obtain ⟨hmem, hsome⟩ := List.mem_filter.mp hline
  obtain ⟨number, hnumber⟩ := Option.isSome_iff_exists.mp hsome
  simpa [Table.isDataFrom, hnumber, hfrom line hmem number hnumber] using hnot

/-- What is left from the first DATA on that qualifies. -/
theorem InOrder.data_dropWhile :
    (lines.dropWhile (!Table.isDataFrom target ·)).flatMap Line.data =
      if (lines.filter (Table.isDataFrom target)).isEmpty then []
      else
        (lines.filter (Table.isDataFrom target) ++
          lines.filter (·.number = none)).flatMap Line.data := by
  induction lines with
  | nil => rfl
  | cons head tail ih =>
      obtain ⟨hhead, htail⟩ := List.pairwise_cons.mp hlines
      cases hfirst : Table.isDataFrom target head with
      | true =>
          obtain ⟨number, hnumber, hle⟩ := Table.number_of_isDataFrom hfirst
          have hfrom : ∀ line ∈ head :: tail, ∀ number ∈ line.number,
              target ≤ number := by
            intro line hline other hother
            have hprecedes : head.precedes line = true := by
              rcases List.mem_cons.mp hline with rfl | hline
              · exact line.precedes_self
              · exact hhead line hline
            rw [Line.precedes, hnumber, Option.mem_def.mp hother] at hprecedes
            exact Int.le_trans hle (of_decide_eq_true hprecedes)
          rw [List.dropWhile_cons_of_neg (by simp [hfirst]),
            hlines.flatMap_data hfrom, List.filter_cons_of_pos hfirst]
          rfl
      | false =>
          rw [List.dropWhile_cons_of_pos (by simp [hfirst]), ih htail,
            List.filter_cons_of_neg (by simp [hfirst])]
          split
          · rfl
          next hsome =>
            -- a line without a number does not come before one that qualifies
            obtain ⟨line, hmem, hchosen⟩ : ∃ line ∈ tail,
                Table.isDataFrom target line = true := by
              simpa using hsome
            obtain ⟨number, hnumber, -⟩ := Table.number_of_isDataFrom hchosen
            have hprecedes := hhead line hmem
            rw [Line.precedes, hnumber] at hprecedes
            cases hm : head.number with
            | none => simp [hm] at hprecedes
            | some m => rw [List.filter_cons_of_neg (by simp [hm])]

end InOrder

theorem drop_length_takeWhile (lines : List Line) (passes : Line → Bool) :
    (lines.flatMap Line.data).drop
        ((lines.takeWhile passes).flatMap Line.data).length =
      (lines.dropWhile passes).flatMap Line.data := by
  have hsplit : lines.flatMap Line.data =
      (lines.takeWhile passes).flatMap Line.data ++
        (lines.dropWhile passes).flatMap Line.data := by
    rw [← List.flatMap_append, List.takeWhile_append_dropWhile]
  rw [hsplit, List.drop_left]

/-- Behind the position of a number lies the data from that number on. -/
theorem Table.drop_dataPosition (program : Program) (target : Int) :
    (ofProgram program).data.drop ((ofProgram program).dataPosition target) =
      program.dataFrom target := by
  change (program.arrange.flatMap Line.data).drop
    ((program.arrange.takeWhile (!isDataFrom target ·)).flatMap
      Line.data).length = _
  rw [drop_length_takeWhile, program.inOrder_arrange.data_dropWhile,
    program.filter_arrange, program.rearranged_arrange, Program.dataFrom]
  simp only [List.isEmpty_iff_length_eq_zero, List.length_mergeSort]

/-- A greater number is not in front of a smaller one. -/
theorem Table.dataPosition_mono (table : Table) {first second : Int}
    (hle : first ≤ second) :
    table.dataPosition first ≤ table.dataPosition second := by
  have hpasses (line : Line) (hnot : (!isDataFrom first line) = true) :
      (!isDataFrom second line) = true := by
    rw [Bool.not_eq_true', Bool.eq_false_iff] at hnot ⊢
    intro hsecond
    apply hnot
    obtain ⟨number, hnumber, hfrom⟩ := number_of_isDataFrom hsecond
    simp_all [isDataFrom]
    omega
  have htaken : table.lines.takeWhile (!isDataFrom first ·) =
      (table.lines.takeWhile (!isDataFrom second ·)).takeWhile
        (!isDataFrom first ·) := by
    rw [List.takeWhile_takeWhile]
    apply congrArg (List.takeWhile · table.lines)
    funext line
    simpa using hpasses line
  rw [dataPosition, htaken]
  exact ((List.takeWhile_sublist _).flatMap Line.data).length_le

end NumberedBasic
