import NumberedBasic.Proofs.Machine.Alignment
import NumberedBasic.Proofs.Table.Order

/-!
# The table of a program with one more remark

A remark moves the statements behind it by one place.  It holds no data, and a
search for another line passes it.
-/

namespace NumberedBasic

/-- The index of a statement after a remark is inserted at the given place. -/
def remarkedIndex (place : Nat) (index : Int) : Int :=
  if index < place then index else index + 1

/-- The same numbers at other places.  The statement behind the remark may be
reached through it. -/
def remarking (place : Nat) : Alignment where
  number := id
  index := remarkedIndex place
  Place index index' :=
    index' = remarkedIndex place index ∨ index = place ∧ index' = place

section Index

variable {place : Nat} {index : Int}

theorem remarkedIndex_of_lt (hindex : index < place) :
    remarkedIndex place index = index :=
  if_pos hindex

theorem remarkedIndex_of_ge (hindex : place ≤ index) :
    remarkedIndex place index = index + 1 :=
  if_neg (Int.not_lt.mpr hindex)

/-- What comes behind a statement comes behind it in the other table, or the
remark does. -/
theorem place_remarkedIndex_succ (place : Nat) (index : Int) :
    (remarking place).Place (index + 1) (remarkedIndex place index + 1) := by
  change _ = remarkedIndex place (index + 1) ∨ _
  unfold remarkedIndex
  split <;> split <;> omega

theorem place_zero (place : Nat) : (remarking place).Place 0 0 := by
  change _ = remarkedIndex place 0 ∨ _
  unfold remarkedIndex
  split <;> omega

end Index

/-- The second table has a remark behind the first lines of the first. -/
structure Table.RemarkedAt (front : List Line) (remark : Line)
    (table table' : Table) : Prop where
  idle : ∃ comment, remark.statement = .remark comment
  data : table'.data = table.data
  lines : ∃ back, table.lines = front ++ back ∧
    table'.lines = front ++ remark :: back

/-- Lines that a search passes and that hold no data do not matter for the
data in front of the place that it finds. -/
theorem data_takeWhile_passed {line : Line} (hdata : line.data = [])
    {passes : Line → Bool} (hpasses : passes line = true)
    (front back : List Line) :
    ((front ++ line :: back).takeWhile passes).flatMap Line.data =
      ((front ++ back).takeWhile passes).flatMap Line.data := by
  induction front with
  | nil => simp [hpasses, hdata]
  | cons head front ih =>
      simp only [List.cons_append, List.takeWhile_cons]
      split
      · rw [List.flatMap_cons, List.flatMap_cons, ih]
      · rfl

namespace Table.RemarkedAt

variable {front : List Line} {remark : Line} {table table' : Table}
variable (hremarked : RemarkedAt front remark table table')

include hremarked

theorem data_remark : remark.data = [] := by
  obtain ⟨comment, hidle⟩ := hremarked.idle
  rw [Line.data, hidle]

theorem isData_remark : remark.isData = false := by
  obtain ⟨comment, hidle⟩ := hremarked.idle
  rw [Line.isData, hidle]

theorem line?_remarkedIndex (index : Int) :
    table'.line? (remarkedIndex front.length index) = table.line? index := by
  obtain ⟨back, hlines, hlines'⟩ := hremarked.lines
  unfold line?
  rw [hlines, hlines']
  by_cases hbefore : index < front.length
  · rw [remarkedIndex_of_lt hbefore]
    split
    next hnonneg =>
      have hlt : index.toNat < front.length := by omega
      rw [List.getElem?_append_left hlt, List.getElem?_append_left hlt]
    next => rfl
  · have hplace : (front.length : Int) ≤ index := Int.not_lt.mp hbefore
    rw [remarkedIndex_of_ge hplace, if_pos (by omega), if_pos (by omega)]
    obtain ⟨offset, rfl⟩ := Int.le.dest hplace
    have hindex : ((front.length : Int) + offset).toNat =
        front.length + offset := by omega
    have hindex' : ((front.length : Int) + offset + 1).toNat =
        front.length + (offset + 1) := by omega
    rw [hindex, hindex', List.getElem?_append_right (by omega),
      List.getElem?_append_right (by omega)]
    simp only [Nat.add_sub_cancel_left, List.getElem?_cons_succ]

theorem line?_remark : table'.line? front.length = some remark := by
  obtain ⟨back, -, hlines'⟩ := hremarked.lines
  simp [line?, hlines']

theorem findLine_related {target : Option Int} (htarget : remark.number ≠ target) :
    outcomesRelated (remarking front.length).Place
      (fun error error' => error' = error)
      (table.findLine target) (table'.findLine target) := by
  obtain ⟨back, hlines, hlines'⟩ := hremarked.lines
  unfold findLine
  rw [hlines, hlines', List.findIdx?_append, List.findIdx?_append,
    List.findIdx?_cons]
  cases hfront : front.findIdx? (·.number = target) with
  | some index =>
      obtain ⟨hindex, -⟩ := List.findIdx?_eq_some_iff_getElem.mp hfront
      exact Or.inl (remarkedIndex_of_lt (by omega)).symm
  | none =>
      cases hback : back.findIdx? (·.number = target) with
      | none => simp [htarget, outcomesRelated]
      | some index =>
          simp only [htarget, decide_false, Bool.false_eq_true, if_false,
            Option.none_or, Option.map_some]
          refine Or.inl ?_
          rw [remarkedIndex_of_ge (by omega)]
          omega

theorem dataPosition_eq (target : Int) :
    table'.dataPosition target = table.dataPosition target := by
  obtain ⟨back, hlines, hlines'⟩ := hremarked.lines
  have hpasses : (!isDataFrom target remark) = true := by
    rw [isDataFrom, hremarked.isData_remark]
    rfl
  rw [dataPosition, dataPosition, hlines, hlines',
    data_takeWhile_passed hremarked.data_remark hpasses]

theorem tables :
    (remarking front.length).Tables {target | remark.number ≠ target} Set.univ
      table table' where
  data := hremarked.data
  findLine target htarget := by
    have hsame (error : RunError) : error.renumber id = error :=
      error.renumber_id
    simpa only [remarking, Option.map_id_fun, id_eq, hsame] using
      hremarked.findLine_related htarget
  dataPosition target _ := hremarked.dataPosition_eq target

end Table.RemarkedAt

/-- The tables of a program and of the program with one more remark. -/
theorem Table.remarkedAt_ofProgram (front back : Program)
    (number : Option Int) (comment : String) :
    ∃ before, RemarkedAt before ⟨number, .remark comment⟩
      (ofProgram (front ++ back))
      (ofProgram (front ++ ⟨number, .remark comment⟩ :: back)) := by
  obtain ⟨before, after, hlines, hlines', -⟩ :=
    Program.inserted_arrange front back ⟨number, .remark comment⟩
  refine ⟨before, ⟨comment, rfl⟩, ?_, after, hlines, hlines'⟩
  change (Program.arrange _).flatMap _ = (Program.arrange _).flatMap _
  rw [hlines, hlines', List.flatMap_append, List.flatMap_append,
    List.flatMap_cons]
  rfl

end NumberedBasic
