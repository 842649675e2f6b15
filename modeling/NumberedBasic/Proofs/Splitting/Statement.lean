import NumberedBasic.Proofs.Machine.Silent
import NumberedBasic.Proofs.Machine.Tracking

/-!
# One statement for each item

A READ, NEXT, DIM or DATA of several items can be written as several
statements of one item each.  The statement carries out, in turn, what these
do on their own.
-/

namespace NumberedBasic

/-- The statements of one item each that a statement is made of; other
statements, and a NEXT without names, are made of none. -/
def Statement.split : Statement → List Statement
  | .read targets => targets.map fun target => .read [target]
  | .next names => names.map fun name => .next [name]
  | .dim arrays => arrays.map fun declaration => .dim [declaration]
  | .data values => values.map fun value => .data [value]
  | _ => []

/-- What a statement of one item does with its item. -/
def Statement.item [Host] (table : Table) : Statement → Exec Bool
  | .read [target] => Exec.straight (Exec.readInto table target)
  | .next [name] => Exec.nextLoop (some name)
  | .dim [declaration] => Exec.straight (Exec.declare declaration)
  | _ => pure false

theorem Exec.inTurn_pure_false {α : Type} (items : List α) :
    inTurn (items.map fun _ => pure false) = pure () := by
  induction items with
  | nil => rfl
  | cons item items ih => exact ih

/-- A statement carries out its items in turn. -/
theorem Statement.exec_eq_inTurn [Host] (table : Table) {statement : Statement}
    (hsplit : statement.split ≠ []) :
    statement.exec table =
      Exec.inTurn (statement.split.map (Statement.item table)) := by
  cases statement with
  | read targets =>
      change targets.forM (Exec.readInto table) = _
      rw [Exec.forM_eq_inTurn, split, List.map_map]
      rfl
  | next names =>
      cases names with
      | nil => exact absurd rfl hsplit
      | cons first others =>
          change Exec.nextLoops ((first :: others).map some) = _
          rw [Exec.nextLoops_eq_inTurn, split, List.map_map, List.map_map]
          rfl
  | dim arrays =>
      change arrays.forM Exec.declare = _
      rw [Exec.forM_eq_inTurn, split, List.map_map]
      rfl
  | data values =>
      rw [split, List.map_map]
      exact (Exec.inTurn_pure_false values).symm
  | _ => exact absurd rfl hsplit

section Parts

variable {statement part : Statement} (hpart : part ∈ statement.split)

include hpart

theorem Statement.split_of_mem_split : part.split = [part] := by
  cases statement <;> simp only [split, List.not_mem_nil] at hpart
  all_goals
    obtain ⟨item, _, rfl⟩ := List.mem_map.mp hpart
    rfl

theorem Statement.exec_of_mem_split [Host] (table : Table) :
    part.exec table = Exec.inTurn [part.item table] := by
  have hsplit := split_of_mem_split hpart
  rw [exec_eq_inTurn table (by rw [hsplit]; exact List.cons_ne_nil _ _), hsplit]
  rfl

end Parts

/-! ## The lines of the parts -/

/-- A line for each part, all with the number of the line. -/
def Line.split (line : Line) : List Line :=
  line.statement.split.map (Line.mk line.number)

section Lines

variable {line part : Line} (hpart : part ∈ line.split)

include hpart

theorem Line.number_of_mem_split : part.number = line.number := by
  obtain ⟨statement, _, rfl⟩ := List.mem_map.mp hpart
  rfl

/-- A part is a DATA exactly if the statement is. -/
theorem Line.isData_of_mem_split : part.isData = line.isData := by
  obtain ⟨statement, hstatement, rfl⟩ := List.mem_map.mp hpart
  obtain ⟨number, whole⟩ := line
  change statement ∈ whole.split at hstatement
  cases whole <;> simp only [Statement.split, List.not_mem_nil] at hstatement
  all_goals
    obtain ⟨item, _, rfl⟩ := List.mem_map.mp hstatement
    rfl

end Lines

/-- The parts contribute the same data as the statement. -/
theorem Line.data_split {line : Line} (hsplit : line.split ≠ []) :
    line.split.flatMap Line.data = line.data := by
  obtain ⟨number, statement⟩ := line
  cases statement with
  | data values =>
      simp only [Line.split, Statement.split, List.map_map, List.flatMap_map]
      exact List.flatMap_singleton' values
  | read targets => simp [Line.split, Statement.split, Line.data]
  | next names => simp [Line.split, Statement.split, Line.data]
  | dim arrays => simp [Line.split, Statement.split, Line.data]
  | _ => exact absurd rfl hsplit

theorem State.dispatch_eq_inTurn [Host] (table : Table) (state : State) {line : Line}
    (hsplit : line.split ≠ []) :
    state.dispatch table line =
      Exec.inTurn (line.split.map fun part => part.statement.item table)
        { state with next := state.pc + 1 } := by
  have hstatement : line.statement.split ≠ [] := by
    simpa [Line.split] using hsplit
  rw [State.dispatch, Statement.exec_eq_inTurn table hstatement, Line.split,
    List.map_map]
  rfl

theorem State.dispatch_of_mem_split [Host] (table : Table) (state : State)
    {line part : Line} (hpart : part ∈ line.split) :
    state.dispatch table part =
      Exec.inTurn [part.statement.item table]
        { state with next := state.pc + 1 } := by
  obtain ⟨statement, hstatement, rfl⟩ := List.mem_map.mp hpart
  rw [State.dispatch, Statement.exec_of_mem_split hstatement]

theorem Progress.advance_of_mem_split [Host] (table : Table) (state : State)
    {line part : Line} (hpart : part ∈ line.split) :
    (running state part).advance table =
      State.resume table part (Exec.inTurn [part.statement.item table]
        { state with next := state.pc + 1 }) := by
  rw [advance, State.dispatch_of_mem_split table state hpart]

/-! ## Items in two runs -/

theorem Statement.silent_item [Host] (table : Table) (part : Statement) :
    Exec.Silent (part.item table) := by
  unfold Statement.item
  split
  · exact (Exec.preserves_readInto Exec.admits_any (fun _ _ => rfl) table
      (fun _ _ => rfl) (Exec.aside_output.hidden _)).straight
  · exact Exec.spares_nextLoop (fun _ _ => rfl) (fun _ _ => rfl)
      (fun _ _ => rfl) (fun _ _ => rfl) _
  · exact (Exec.preserves_declare Exec.admits_any (fun _ _ => rfl)
      (Exec.aside_output.hidden _)).straight
  · exact .pure false

/-- The items of a part track each other in tables with the same data. -/
theorem Statement.tracksItem_item [Host] {alignment : Alignment}
    {table table' : Table} (hdata : table'.data = table.data)
    {Course : Int × Bool → Int × Bool → Prop} (hend : Exec.AgreeOnEnd Course)
    {pc pc' : Int} (part : Statement) :
    Exec.TracksItem alignment Course pc pc' (part.item table)
      (part.item table') := by
  unfold Statement.item
  split
  · exact (Exec.tracks_readInto hdata _).straight
  · exact Exec.tracksItem_nextLoop hend _
  · exact (Exec.tracks_declare _).straight
  · exact fun _ _ hstates => ⟨rfl, hstates⟩

end NumberedBasic
