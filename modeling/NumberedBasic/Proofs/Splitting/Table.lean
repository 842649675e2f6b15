import NumberedBasic.Proofs.Splitting.Statement
import NumberedBasic.Proofs.Table.Order

/-!
# The table of a split program

A table that has several lines of one number in the place of one line keeps
its data, and every search for a line or for data finds the answering place.
-/

namespace NumberedBasic

/-- The index of a statement after one at the given place is replaced by a
number of statements, of which the first takes its place. -/
def splitIndex (place count : Nat) (index : Int) : Int :=
  if index ≤ place then index else index + (count - 1)

/-- The same numbers at other places. -/
def splitting (place count : Nat) : Alignment where
  number := id
  index := splitIndex place count
  Place index index' := index' = splitIndex place count index

/-- The places after a line is split. -/
abbrev Line.splitting (line : Line) (place : Nat) : Alignment :=
  NumberedBasic.splitting place line.split.length

section Index

variable {place count : Nat} {index : Int}

theorem splitIndex_of_le (hindex : index ≤ place) :
    splitIndex place count index = index :=
  if_pos hindex

theorem splitIndex_of_lt (hindex : place < index) :
    splitIndex place count index = index + (count - 1) :=
  if_neg (Int.not_le.mpr hindex)

theorem splitIndex_succ (hindex : index ≠ place) :
    splitIndex place count (index + 1) = splitIndex place count index + 1 := by
  unfold splitIndex
  split <;> split <;> omega

end Index

/-- Lines that a search treats alike and that hold the same data leave the data
in front of the place that it finds the same. -/
theorem data_takeWhile {line : Line} {parts : List Line} (hparts : parts ≠ [])
    (hdata : parts.flatMap Line.data = line.data) {passes : Line → Bool}
    (hsame : ∀ part ∈ parts, passes part = passes line)
    (front back : List Line) :
    ((front ++ parts ++ back).takeWhile passes).flatMap Line.data =
      ((front ++ line :: back).takeWhile passes).flatMap Line.data := by
  induction front with
  | nil =>
      rw [List.nil_append, List.nil_append, List.takeWhile_cons]
      cases hpasses : passes line with
      | true =>
          have hall : ∀ part ∈ parts, passes part = true := fun part hpart =>
            (hsame part hpart).trans hpasses
          rw [List.takeWhile_append_of_pos hall, List.flatMap_append, hdata]
          rfl
      | false =>
          obtain ⟨first, others, rfl⟩ := List.exists_cons_of_ne_nil hparts
          have hfirst := (hsame first List.mem_cons_self).trans hpasses
          rw [List.cons_append, List.takeWhile_cons, hfirst]
          rfl
  | cons head front ih =>
      simp only [List.cons_append, List.takeWhile_cons]
      split
      · rw [List.flatMap_cons, List.flatMap_cons, ih]
      · rfl

/-- The second table has the parts of a line where the first has the line. -/
structure Table.SplitAt (front : List Line) (line : Line)
    (table table' : Table) : Prop where
  data : table'.data = table.data
  parts : line.split ≠ []
  lines : ∃ back, table.lines = front ++ line :: back ∧
    table'.lines = front ++ line.split ++ back

namespace Table.SplitAt

variable {front : List Line} {line : Line} {table table' : Table}
variable (hsplit : SplitAt front line table table')

include hsplit

/-- Elsewhere the tables have the same lines at answering places. -/
theorem line?_splitIndex {index : Int} (hindex : index ≠ front.length) :
    table'.line? (splitIndex front.length line.split.length index) =
      table.line? index := by
  obtain ⟨back, hlines, hlines'⟩ := hsplit.lines
  unfold line?
  rw [hlines, hlines']
  by_cases hbefore : index ≤ front.length
  · rw [splitIndex_of_le hbefore]
    split
    next hnonneg =>
      have hlt : index.toNat < front.length := by omega
      rw [List.append_assoc, List.getElem?_append_left hlt,
        List.getElem?_append_left hlt]
    next => rfl
  · have hlength := List.length_pos_iff.mpr hsplit.parts
    rw [splitIndex_of_lt (by omega), if_pos (by omega), if_pos (by omega)]
    obtain ⟨offset, rfl⟩ : ∃ offset : Nat, index = front.length + 1 + offset :=
      ⟨(index - front.length - 1).toNat, by omega⟩
    have hindex : ((front.length : Int) + 1 + offset).toNat =
        (front ++ [line]).length + offset := by
      rw [List.length_append, List.length_singleton]
      omega
    have hindex' : ((front.length : Int) + 1 + offset +
        (line.split.length - 1)).toNat = (front ++ line.split).length + offset := by
      rw [List.length_append]
      omega
    rw [hindex, hindex', List.append_cons, List.getElem?_append_right (by omega),
      List.getElem?_append_right (by omega)]
    simp only [Nat.add_sub_cancel_left]

theorem line?_front : table.line? front.length = some line := by
  obtain ⟨back, hlines, -⟩ := hsplit.lines
  simp [line?, hlines]

theorem line?_part {offset : Nat} (hoffset : offset < line.split.length) :
    table'.line? (front.length + offset) = line.split[offset]? := by
  obtain ⟨back, -, hlines'⟩ := hsplit.lines
  have hindex : ((front.length : Int) + offset).toNat =
      front.length + offset := by omega
  rw [line?, if_pos (by omega), hindex, hlines', List.append_assoc,
    List.getElem?_append_right (by omega), Nat.add_sub_cancel_left,
    List.getElem?_append_left hoffset]

theorem findLine_related (target : Option Int) :
    outcomesRelated (line.splitting front.length).Place
      (fun error error' => error' = error)
      (table.findLine target) (table'.findLine target) := by
  obtain ⟨back, hlines, hlines'⟩ := hsplit.lines
  unfold findLine
  rw [hlines, hlines', List.append_assoc, List.findIdx?_append,
    List.findIdx?_append]
  cases hfront : front.findIdx? (·.number = target) with
  | some index =>
      obtain ⟨hindex, -⟩ := List.findIdx?_eq_some_iff_getElem.mp hfront
      exact (splitIndex_of_le (by omega)).symm
  | none =>
      obtain ⟨first, others, hparts⟩ := List.exists_cons_of_ne_nil hsplit.parts
      rw [hparts]
      by_cases htarget : line.number = target
      · have hfirst : first.number = target :=
          (Line.number_of_mem_split (hparts ▸ List.mem_cons_self)).trans htarget
        simp only [List.cons_append, List.findIdx?_cons, hfirst, htarget,
          decide_true, if_true, Option.none_or, Option.map_some]
        exact (splitIndex_of_le (by omega)).symm
      · have hnone : line.split.findIdx? (·.number = target) = none := by
          rw [List.findIdx?_eq_none_iff]
          intro part hpart
          rw [Line.number_of_mem_split hpart]
          exact decide_eq_false htarget
        rw [← hparts, List.findIdx?_append, hnone, List.findIdx?_cons]
        cases hback : back.findIdx? (·.number = target) with
        | none => simp [htarget, outcomesRelated]
        | some index =>
            simp only [htarget, decide_false, Bool.false_eq_true, if_false,
              Option.none_or, Option.map_some]
            change _ = splitIndex _ _ _
            rw [splitIndex_of_lt (by omega)]
            omega

theorem dataPosition_eq (target : Int) :
    table'.dataPosition target = table.dataPosition target := by
  obtain ⟨back, hlines, hlines'⟩ := hsplit.lines
  unfold dataPosition
  rw [hlines, hlines',
    data_takeWhile hsplit.parts (Line.data_split hsplit.parts)]
  intro part hpart
  unfold isDataFrom
  rw [Line.isData_of_mem_split hpart, Line.number_of_mem_split hpart]

theorem tables :
    (line.splitting front.length).Tables Set.univ Set.univ table table' where
  data := hsplit.data
  findLine target _ := by
    have hsame (error : RunError) : error.renumber id = error :=
      error.renumber_id
    simpa only [splitting, Option.map_id_fun, id_eq, hsame] using
      hsplit.findLine_related target
  dataPosition target _ := hsplit.dataPosition_eq target

end Table.SplitAt

/-- The tables of a program and of the program with one of its lines split. -/
theorem Table.splitAt_ofProgram (front back : Program) {line : Line}
    (hparts : line.split ≠ []) :
    ∃ before, SplitAt before line (ofProgram (front ++ line :: back))
      (ofProgram (front ++ line.split ++ back)) := by
  obtain ⟨before, after, hlines, hlines'⟩ := Program.expanded_arrange hparts
    (fun _ => Line.number_of_mem_split) front back
  refine ⟨before, ?_, hparts, after, hlines, hlines'⟩
  change (Program.arrange _).flatMap _ = (Program.arrange _).flatMap _
  rw [hlines, hlines', List.flatMap_append, List.flatMap_append,
    List.flatMap_append, List.flatMap_cons, Line.data_split hparts,
    List.append_assoc]

end NumberedBasic
