import NumberedBasic.Machine.Run
import NumberedBasic.Proofs.Table.Order

/-!
# The order of execution as a stable sort

In the table every line precedes those behind it, and lines that share a number
stand as they were written, as do those without one.  Only one arrangement of
the lines has both properties.  Hence the table does not depend on how lines of
different numbers are mixed in the program, and the place of a number is the
count of the smaller ones.
-/

namespace NumberedBasic

/-- Every line precedes those behind it. -/
def InOrder (lines : List Line) : Prop :=
  lines.Pairwise fun first second => first.precedes second = true

/-- The second list has the lines of the first; those that share a number are
in the same order, and so are those without a number. -/
def Rearranged (lines lines' : List Line) : Prop :=
  ∀ number : Option Int,
    lines'.filter (·.number = number) = lines.filter (·.number = number)

/-! ## Sorting keeps lines of one number as they are -/

theorem Line.rearranged_insertInto (line : Line) (lines : List Line) :
    Rearranged (line :: lines) (line.insertInto lines) := by
  intro number
  obtain ⟨front, back, rfl, hfront, hback⟩ := line.exists_place lines
  rw [insertInto_append hfront, insertInto_of_head hback, List.filter_append,
    List.filter_cons, List.filter_cons, List.filter_append]
  split
  next hnumber =>
    -- the line passes none of those that share its number
    have hnone : front.filter (·.number = number) = [] := by
      rw [List.filter_eq_nil_iff]
      intro other hother hsame
      have hpassed := hfront other hother
      rw [precedes_congr rfl ((of_decide_eq_true hsame).trans
        (of_decide_eq_true hnumber).symm), line.precedes_self] at hpassed
      cases hpassed
    rw [hnone, List.nil_append, List.nil_append]
  next => rfl

theorem Program.rearranged_arrange (program : Program) :
    Rearranged program program.arrange := by
  induction program with
  | nil => exact fun _ => rfl
  | cons line program ih =>
      intro number
      rw [arrange, List.foldr_cons, line.rearranged_insertInto _ number,
        List.filter_cons, List.filter_cons, ← ih number]
      rfl

theorem Line.inOrder_insertInto (line : Line) {lines : List Line}
    (hlines : InOrder lines) : InOrder (line.insertInto lines) := by
  induction lines with
  | nil => exact List.pairwise_singleton _ _
  | cons head tail ih =>
      obtain ⟨hhead, htail⟩ := List.pairwise_cons.mp hlines
      rw [insertInto]
      split
      next hprecedes =>
        refine List.pairwise_cons.mpr ⟨?_, hlines⟩
        intro other hother
        rcases List.mem_cons.mp hother with rfl | hother
        · exact hprecedes
        · exact precedes_trans hprecedes (hhead other hother)
      next hnot =>
        refine List.pairwise_cons.mpr ⟨?_, ih htail⟩
        intro other hother
        rcases List.mem_cons.mp ((line.insertInto_perm tail).mem_iff.mp hother)
          with rfl | hother
        · exact precedes_of_not_precedes (by simpa using hnot)
        · exact hhead other hother

theorem Program.inOrder_arrange (program : Program) :
    InOrder program.arrange := by
  induction program with
  | nil => exact List.Pairwise.nil
  | cons line program ih => exact line.inOrder_insertInto ih

/-! ## There is one such arrangement -/

theorem Line.number_eq_of_precedes {first second : Line}
    (hfirst : first.precedes second = true)
    (hsecond : second.precedes first = true) :
    first.number = second.number := by
  unfold precedes at hfirst hsecond
  cases hm : first.number <;> cases hn : second.number <;> simp_all
  omega

theorem Rearranged.mem_iff {lines lines' : List Line}
    (hsame : Rearranged lines lines') (line : Line) :
    line ∈ lines' ↔ line ∈ lines := by
  have hfiltered := congrArg (line ∈ ·) (hsame line.number)
  simpa using hfiltered

/-- Lines in order are told by those of each number. -/
theorem Rearranged.eq {lines lines' : List Line}
    (hsame : Rearranged lines lines') (hlines : InOrder lines)
    (hlines' : InOrder lines') : lines' = lines := by
  induction lines generalizing lines' with
  | nil =>
      rw [List.eq_nil_iff_forall_not_mem]
      intro line hline
      cases (hsame.mem_iff line).mp hline
  | cons head tail ih =>
      cases lines' with
      | nil => cases (hsame.mem_iff head).mpr List.mem_cons_self
      | cons head' tail' =>
          obtain ⟨hhead, htail⟩ := List.pairwise_cons.mp hlines
          obtain ⟨hhead', htail'⟩ := List.pairwise_cons.mp hlines'
          have hnumber : head'.number = head.number := by
            apply Line.number_eq_of_precedes
            · rcases List.mem_cons.mp ((hsame.mem_iff head).mpr
                List.mem_cons_self) with rfl | hmem
              · exact head.precedes_self
              · exact hhead' head hmem
            · rcases List.mem_cons.mp ((hsame.mem_iff head').mp
                List.mem_cons_self) with rfl | hmem
              · exact head'.precedes_self
              · exact hhead head' hmem
          have hfirst := hsame head.number
          simp only [List.filter_cons, hnumber, decide_true, if_true] at hfirst
          obtain ⟨rfl, -⟩ := List.cons.inj hfirst
          rw [ih (fun number => ?_) htail htail']
          have hboth := hsame number
          rw [List.filter_cons, List.filter_cons] at hboth
          split at hboth
          · exact (List.cons.inj hboth).2
          · exact hboth

theorem Rearranged.arrange_eq {program program' : Program}
    (hsame : Rearranged program program') :
    program'.arrange = program.arrange := by
  apply Rearranged.eq _ program.inOrder_arrange program'.inOrder_arrange
  intro number
  rw [program.rearranged_arrange, program'.rearranged_arrange, hsame]

/-! ## The parts of the table -/

/-- Behind a line without a number there are no lines with one. -/
theorem InOrder.filter_isSome_append {lines : List Line}
    (hlines : InOrder lines) :
    lines.filter (·.number.isSome) ++ lines.filter (·.number = none) =
      lines := by
  induction lines with
  | nil => rfl
  | cons head tail ih =>
      obtain ⟨hhead, htail⟩ := List.pairwise_cons.mp hlines
      cases hnumber : head.number with
      | some number => simpa [hnumber] using ih htail
      | none =>
          have hnone : ∀ other ∈ tail, other.number = none := by
            intro other hother
            have hprecedes := hhead other hother
            rw [Line.precedes, hnumber] at hprecedes
            cases hother' : other.number with
            | none => rfl
            | some n => simp [hother'] at hprecedes
          have hsome : tail.filter (·.number.isSome) = [] := by
            rw [List.filter_eq_nil_iff]
            intro other hother
            simp [hnone other hother]
          have hall : tail.filter (·.number = none) = tail := by
            rw [List.filter_eq_self]
            exact fun other hother => decide_eq_true (hnone other hother)
          simp [hnumber, hsome, hall]

/-- The first line with a number stands behind those with smaller ones. -/
theorem InOrder.findIdx?_number {lines : List Line} (hlines : InOrder lines)
    {target : Int} (htarget : ∃ line ∈ lines, line.number = some target) :
    lines.findIdx? (·.number = some target) =
      some (lines.countP fun line => line.number.any (· < target)) := by
  induction lines with
  | nil =>
      obtain ⟨line, hline, -⟩ := htarget
      cases hline
  | cons head tail ih =>
      obtain ⟨hhead, htail⟩ := List.pairwise_cons.mp hlines
      rw [List.findIdx?_cons, List.countP_cons]
      by_cases hfirst : head.number = some target
      · have hnone : tail.countP (fun line => line.number.any (· < target)) =
            0 := by
          rw [List.countP_eq_zero]
          intro other hother hsmaller
          have hprecedes := hhead other hother
          rw [Line.precedes, hfirst] at hprecedes
          cases hnumber : other.number <;> simp_all
          omega
        simp [hfirst, hnone]
      · obtain ⟨line, hline, hnumber⟩ := htarget
        have hline : line ∈ tail := by
          rcases List.mem_cons.mp hline with rfl | hline
          · exact absurd hnumber hfirst
          · exact hline
        have hsmaller : head.number.any (· < target) = true := by
          have hprecedes := hhead line hline
          rw [Line.precedes, hnumber] at hprecedes
          cases hm : head.number with
          | none => simp [hm] at hprecedes
          | some m =>
              rw [hm, Option.some.injEq] at hfirst
              simp [hm] at hprecedes
              simp
              omega
        rw [ih htail ⟨line, hline, hnumber⟩]
        simp [hfirst, hsmaller]

/-! ## The table of a program -/

/-- The lines of a program with the numbered ones first, by ascending numbers,
and the others behind them; lines that share a number, or have none, stand as
they were written. -/
structure Program.SortedAs (program : Program) (lines : List Line) : Prop where
  perm : lines.Perm program
  stable : Rearranged program lines
  numbered_first : ∃ numbered, lines = numbered ++
      program.filter (·.number = none) ∧
    (∀ line ∈ numbered, line.number.isSome = true) ∧
    numbered.Pairwise fun first second =>
      ∀ m ∈ first.number, ∀ n ∈ second.number, m ≤ n

theorem Program.sortedAs_arrange (program : Program) :
    program.SortedAs program.arrange where
  perm := program.arrange_perm
  stable := program.rearranged_arrange
  numbered_first := by
    have horder := program.inOrder_arrange
    refine ⟨program.arrange.filter (·.number.isSome), ?_, ?_, ?_⟩
    · rw [← program.rearranged_arrange, horder.filter_isSome_append]
    · exact fun line hline => (List.mem_filter.mp hline).2
    · apply (horder.filter _).imp
      intro first second hprecedes m hm n hn
      simpa [Line.precedes, Option.mem_def.mp hm, Option.mem_def.mp hn] using
        hprecedes

/-- The place of a number is that of the first line written with it. -/
theorem Table.findLine_of_find? {program : Program} {target : Int} {line : Line}
    (hline : program.find? (·.number = some target) = some line) :
    let place := program.countP fun other => other.number.any (· < target)
    (ofProgram program).findLine (some target) = .ok place ∧
      (ofProgram program).line? place = some line := by
  intro place
  have hmem : line ∈ program.arrange :=
    Program.mem_arrange.mpr (List.mem_of_find?_eq_some hline)
  have hnumber : line.number = some target := by
    simpa using List.find?_some hline
  have hindex : (ofProgram program).lines.findIdx?
      (·.number = some target) = some place := by
    change program.arrange.findIdx? _ = _
    rw [program.inOrder_arrange.findIdx?_number ⟨line, hmem, hnumber⟩,
      program.arrange_perm.countP_eq]
  constructor
  · rw [findLine, hindex]
  · have hfirst : (ofProgram program).lines.find? (·.number = some target) =
        some line := by
      rw [← List.head?_filter]
      change (program.arrange.filter _).head? = _
      rw [program.rearranged_arrange, List.head?_filter, hline]
    rw [List.find?_eq_getElem?_findIdx,
      (List.findIdx?_eq_some_iff_findIdx_eq.mp hindex).2] at hfirst
    rwa [line?, if_pos (Int.natCast_nonneg _)]

theorem Table.findLine_of_unnumbered {program : Program} {target : Int}
    (hnone : ∀ line ∈ program, line.number ≠ some target) :
    (ofProgram program).findLine (some target) =
      .error (.undefinedLine (some target)) := by
  have hindex : (ofProgram program).lines.findIdx?
      (·.number = some target) = none := by
    rw [List.findIdx?_eq_none_iff]
    intro line hline
    exact decide_eq_false (hnone line (Program.mem_arrange.mp hline))
  rw [findLine, hindex]

/-- The table has the lines of the program sorted by number, those without one
last, and otherwise as they were written.  A search for a number fails if no
line has it; else it finds the first that was written with it, at the place
that the lines with smaller numbers leave.  A program in which only lines of
different numbers have changed places, or numbered lines and others, has the
same table and the same run. -/
theorem Table.ofProgram_sorted [Host] (program : Program) :
    let table := ofProgram program
    program.SortedAs table.lines ∧
    (∀ target : Int,
      (table.findLine (some target) = .error (.undefinedLine (some target)) ↔
        ∀ line ∈ program, line.number ≠ some target) ∧
      ∀ line, program.find? (·.number = some target) = some line →
        let place := program.countP fun other => other.number.any (· < target)
        table.findLine (some target) = .ok place ∧
          table.line? place = some line) ∧
    ∀ program', Rearranged program program' →
      ofProgram program' = table ∧
        Progress.after (ofProgram program') = Progress.after table := by
  intro table
  refine ⟨program.sortedAs_arrange, ?_, ?_⟩
  · intro target
    refine ⟨⟨?_, findLine_of_unnumbered⟩, fun line => findLine_of_find?⟩
    intro herror other hother hnumber
    cases hfirst : program.find? (·.number = some target) with
    | none =>
        rw [List.find?_eq_none] at hfirst
        exact hfirst other hother (decide_eq_true hnumber)
    | some line =>
        rw [(findLine_of_find? hfirst).1] at herror
        cases herror
  · intro program' hsame
    have htable : ofProgram program' = table := by
      rw [ofProgram, hsame.arrange_eq]
      rfl
    exact ⟨htable, congrArg Progress.after htable⟩

/-- Two lines share a number, and two have none. -/
def scattered : Program :=
  [⟨none, .stop⟩, ⟨some 20, .print [.text "B"] [] none⟩, ⟨some 10, .goto (some 20)⟩,
    ⟨none, .data [.zero]⟩, ⟨some 20, .remark "C"⟩]

def gathered : Program :=
  [⟨some 20, .print [.text "B"] [] none⟩, ⟨some 20, .remark "C"⟩, ⟨none, .stop⟩,
    ⟨none, .data [.zero]⟩, ⟨some 10, .goto (some 20)⟩]

theorem Table.ofProgram_sorted_of_scattered :
    let line : Line := ⟨some 20, .print [.text "B"] [] none⟩
    Rearranged scattered gathered ∧
      scattered.find? (·.number = some 20) = some line ∧
      (ofProgram scattered).findLine (some 20) = .ok 1 ∧
      (ofProgram scattered).line? 1 = some line ∧
      ofProgram gathered = ofProgram scattered := by
  intro line
  have hsame : Rearranged scattered gathered := by
    intro number
    simp only [scattered, gathered, List.filter_cons, List.filter_nil]
    by_cases hten : some 10 = number
    · subst hten
      rfl
    · by_cases htwenty : some 20 = number
      · subst htwenty
        rfl
      · simp [hten, htwenty]
  have hfirst : scattered.find? (·.number = some 20) = some line := rfl
  obtain ⟨-, hsearch, hsorted⟩ := ofProgram_sorted scattered
  obtain ⟨hfound, hplace⟩ := (hsearch 20).2 line hfirst
  exact ⟨hsame, hfirst, hfound, hplace, (hsorted gathered hsame).1⟩

end NumberedBasic
