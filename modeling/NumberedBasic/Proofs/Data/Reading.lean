import NumberedBasic.Proofs.Data.Position
import NumberedBasic.Proofs.Effects.Parts

/-!
# Data read in order

The data that has not been read is what lies behind the position in it.  A
READ takes its values from the front of that, one for each target, until there
are none left, and nothing but a RESTORE changes it otherwise.  So the values
that a run reads between one RESTORE and the next are, in order, those behind
the position that it was set to.
-/

namespace NumberedBasic

/-- One more value of the data has been read. -/
def State.withRead (state : State) : State :=
  { state with dataPosition := state.dataPosition + 1 }

/-- The data that has not been read. -/
def Table.unread (table : Table) (state : State) : List Value :=
  table.data.drop state.dataPosition

namespace Exec

/-- Assigns one value of a list after another to the targets. -/
def handOut : List Place → List Value → Exec Unit
  | [], _ => pure ()
  | _ :: _, [] => fail .outOfData
  | target :: targets, value :: values => do
      modify State.withRead
      assign target value
      handOut targets values

/-- The values that are read into the targets, with the one that cannot be
assigned as the last if there is such a one. -/
def taken (table : Table) : List Place → State → List Value
  | [], _ => []
  | target :: targets, state =>
      match readData table state with
      | .error _ _ => []
      | .ok value read =>
          match assign target value read with
          | .error _ _ => [value]
          | .ok _ assigned => value :: taken table targets assigned

end Exec

/-- The values that the statement takes from the data. -/
def Statement.taken (table : Table) (statement : Statement) (state : State) :
    List Value :=
  match statement.reached state.toMemory with
  | .read targets => Exec.taken table targets state
  | _ => []

def Statement.isRestore : Statement → Bool
  | .restore _ => true
  | _ => false

namespace Progress

/-- The values that the next dispatch takes from the data. -/
def taken (table : Table) : Progress → List Value
  | running state line =>
      line.statement.taken table { state with next := state.pc + 1 }
  | _ => []

/-- The values that a number of dispatches take from the data. -/
def delivered [Host] (table : Table) (count : Nat) (progress : Progress) :
    List Value :=
  (List.range count).flatMap fun earlier =>
    (progress.advanceMany table earlier).taken table

/-- The next dispatch carries out a RESTORE. -/
def atRestore : Progress → Bool
  | running state line => (line.statement.reached state.toMemory).isRestore
  | _ => false

end Progress

/-! ## One READ -/

namespace Exec

variable {table : Table} {state : State}

theorem get_bind_apply {α : Type} (next : State → Exec α) (state : State) :
    (get >>= next) state = next state state := rfl

theorem dataPosition_assign (place : Place) (value : Value) (state : State) :
    (resultState (assign place value state)).dataPosition =
      state.dataPosition := by
  have hhidden (root : Variable) : root.HiddenFrom State.dataPosition := by
    cases root <;> exact fun _ _ => rfl
  have hspares : Spares State.dataPosition (assign place value) :=
    preserves_assign admits_any (fun _ _ => rfl) (hhidden _) value
  exact hspares.view_eq state

theorem readData_of_nil (hunread : table.unread state = []) :
    readData table state = .error (.error .outOfData) state := by
  have hnone : table.data[state.dataPosition]? = none := by
    rw [List.getElem?_eq_none_iff]
    exact List.drop_eq_nil_iff.mp hunread
  rw [readData, get_bind_apply]
  rw [hnone]
  rfl

theorem readInto_of_nil (hunread : table.unread state = []) (target : Place) :
    readInto table target state = .error (.error .outOfData) state := by
  change EStateM.bind (readData table) (assign target) state = _
  rw [EStateM.bind, readData_of_nil hunread]

theorem readData_of_cons {value : Value} {values : List Value}
    (hunread : table.unread state = value :: values) :
    readData table state = .ok value state.withRead ∧
      table.unread state.withRead = values := by
  have hsome : table.data[state.dataPosition]? = some value := by
    have hhead := congrArg (·[0]?) hunread
    simpa [Table.unread] using hhead
  constructor
  · rw [readData, get_bind_apply]
    rw [hsome]
    rfl
  · rw [Table.unread, State.withRead, ← List.drop_drop]
    exact congrArg (List.drop 1) hunread

theorem readInto_of_cons {value : Value} {values : List Value}
    (hunread : table.unread state = value :: values) (target : Place) :
    readInto table target state = assign target value state.withRead := by
  change EStateM.bind (readData table) (assign target) state = _
  rw [EStateM.bind, (readData_of_cons hunread).1]

/-- Assigning the value that was read leaves the others. -/
theorem unread_assign {value : Value} {values : List Value}
    (hunread : table.unread state = value :: values) (target : Place) :
    table.unread (resultState (assign target value state.withRead)) =
      values := by
  rw [Table.unread, dataPosition_assign, ← (readData_of_cons hunread).2,
    Table.unread]

/-- A READ hands out the data that has not been read. -/
theorem forM_readInto_apply (table : Table) (targets : List Place)
    (state : State) :
    targets.forM (readInto table) state =
      handOut targets (table.unread state) state := by
  induction targets generalizing state with
  | nil => rfl
  | cons target targets ih =>
      change EStateM.bind (readInto table target)
        (fun _ => targets.forM (readInto table)) state = _
      rw [EStateM.bind]
      cases hunread : table.unread state with
      | nil =>
          rw [readInto_of_nil hunread]
          rfl
      | cons value values =>
          have hleft := unread_assign hunread target
          rw [readInto_of_cons hunread]
          change _ = EStateM.bind (assign target value)
            (fun _ => handOut targets values) state.withRead
          rw [EStateM.bind]
          cases hassign : assign target value state.withRead with
          | error halt stopped => rfl
          | ok _ assigned =>
              rw [hassign] at hleft
              rw [← hleft]
              exact ih assigned

/-- What a READ takes is what is missing from the data after it. -/
theorem unread_forM_readInto (table : Table) (targets : List Place)
    (state : State) :
    table.unread state = taken table targets state ++
      table.unread (resultState (targets.forM (readInto table) state)) := by
  induction targets generalizing state with
  | nil => rfl
  | cons target targets ih =>
      change _ = _ ++ table.unread (resultState
        (EStateM.bind (readInto table target)
          (fun _ => targets.forM (readInto table)) state))
      rw [EStateM.bind, taken]
      cases hunread : table.unread state with
      | nil =>
          rw [readInto_of_nil hunread, readData_of_nil hunread]
          exact hunread.symm
      | cons value values =>
          have hleft := unread_assign hunread target
          rw [readInto_of_cons hunread, (readData_of_cons hunread).1]
          dsimp only
          cases hassign : assign target value state.withRead with
          | error halt stopped =>
              rw [hassign] at hleft
              exact congrArg (value :: ·) hleft.symm
          | ok _ assigned =>
              rw [hassign] at hleft
              rw [← hleft]
              exact congrArg (value :: ·) (ih assigned)

end Exec

/-! ## One dispatch -/

/-- Unless it is a RESTORE, a statement leaves the data that it does not
take. -/
theorem Statement.unread_exec [Host] (table : Table) (statement : Statement)
    (state : State)
    (hrestore : (statement.reached state.toMemory).isRestore = false) :
    table.unread state = statement.taken table state ++
      table.unread (resultState (statement.exec table state)) := by
  have hspared (hparts : .dataPosition ∉ (statement.reached state.toMemory).parts) :
      table.unread (resultState (statement.exec table state)) =
        table.unread state :=
    congrArg (table.data.drop ·) (statement.dataPosition_exec table hparts)
  rw [taken]
  cases hreached : statement.reached state.toMemory with
  | read targets =>
      rw [← statement.exec_reached, hreached]
      exact Exec.unread_forM_readInto table targets state
  | restore target =>
      rw [hreached] at hrestore
      cases hrestore
  | _ => exact (hspared (by simp [hreached, parts])).symm

theorem State.dataPosition_settle (table : Table) (state : State) :
    (state.settle table).state.dataPosition = state.dataPosition := by
  rw [settle]
  split <;> rfl

theorem State.dataPosition_resume (table : Table) (line : Line)
    (result : EStateM.Result Halt State Unit) :
    (resume table line result).state.dataPosition =
      (resultState result).dataPosition := by
  cases result with
  | ok _ final => exact State.dataPosition_settle table _
  | error halt final => cases halt <;> rfl

namespace Progress

theorem unread_advance [Host] (table : Table) {progress : Progress}
    (hrestore : progress.atRestore = false) :
    table.unread progress.state = progress.taken table ++
      table.unread (progress.advance table).state := by
  cases progress with
  | ended state => rfl
  | broken defect state => rfl
  | running state line =>
      have hkept : table.unread
          ((running state line).advance table).state =
            table.unread (resultState (state.dispatch table line)) :=
        congrArg (table.data.drop ·) (State.dataPosition_resume _ _ _)
      rw [hkept]
      exact line.statement.unread_exec table
        { state with next := state.pc + 1 } hrestore

/-- What a run has taken since a RESTORE and what it has not read is what was
not read then. -/
theorem unread_advanceMany [Host] (table : Table) (progress : Progress) {count : Nat}
    (hrestore : ∀ earlier < count,
      (progress.advanceMany table earlier).atRestore = false) :
    table.unread progress.state = progress.delivered table count ++
      table.unread (progress.advanceMany table count).state := by
  induction count with
  | zero => rfl
  | succ count ih =>
      rw [ih fun earlier hearlier => hrestore earlier (Nat.lt_succ_of_lt hearlier),
        unread_advance table (hrestore count (Nat.lt_succ_self count)),
        delivered, delivered, List.range_succ, List.flatMap_append,
        List.flatMap_singleton, List.append_assoc, advanceMany_add,
        advanceMany_succ, advanceMany]

/-- After a RESTORE to a line number, and until the next RESTORE, the values
that READ takes are those of all DATA with at least that number in the order
of the numbers, then those of the DATA without a number, with none left out
and none twice, and nothing if no number is as great.  A READ assigns the next
of them to its targets, and is out of data where there are no more.  The
position in the data is never beyond its end, and not smaller for a greater
number. -/
theorem delivered_after_restore [Host] (program : Program) (target : Int) :
    let table := Table.ofProgram program
    (∀ {state : State} {line : Line},
      line.statement.reached state.toMemory = .restore (some target) →
      let restored := (running state line).advance table
      ∀ count, (∀ earlier < count,
        (restored.advanceMany table earlier).atRestore = false) →
        ∃ rest, program.dataFrom target =
            restored.delivered table count ++ rest ∧
          ∀ {later : State} {reading : Line} {targets : List Place},
            restored.advanceMany table count = running later reading →
            reading.statement.reached later.toMemory = .read targets →
            later.dispatch table reading =
              Exec.handOut targets rest { later with next := later.pc + 1 }) ∧
    table.dataPosition target ≤ table.data.length ∧
    ∀ greater, target ≤ greater →
      table.dataPosition target ≤ table.dataPosition greater := by
  intro table
  refine ⟨?_, Table.dataPosition_le program target,
    fun greater => table.dataPosition_mono⟩
  intro state line hrestore restored count hearlier
  refine ⟨table.unread (restored.advanceMany table count).state, ?_, ?_⟩
  · rw [← unread_advanceMany table restored hearlier]
    have hposition : restored.state.dataPosition = table.dataPosition target := by
      change (State.resume table line (line.statement.exec table
        { state with next := state.pc + 1 })).state.dataPosition = _
      rw [State.dataPosition_resume, ← Statement.exec_reached]
      change (resultState ((line.statement.reached state.toMemory).exec table
        _)).dataPosition = _
      rw [hrestore]
      rfl
    rw [Table.unread, hposition]
    exact (Table.drop_dataPosition program target).symm
  · intro later reading targets hlater hreached
    rw [hlater, State.dispatch, ← Statement.exec_reached]
    change (reading.statement.reached later.toMemory).exec table _ = _
    rw [hreached]
    exact Exec.forM_readInto_apply table targets _

end Progress

/-- The values 3 and 9 are behind number 25. -/
def readings : Program :=
  [⟨some 40, .read [⟨"A", []⟩, ⟨"B", []⟩]⟩, ⟨some 30, .data [.number 3]⟩,
    ⟨none, .data [.number 9]⟩, ⟨some 20, .data [.number 2]⟩,
    ⟨some 50, .read [⟨"A", []⟩]⟩, ⟨some 10, .restore (some 25)⟩]

theorem Progress.delivered_after_restore_of_readings :
    let table := Table.ofProgram readings
    readings.dataFrom 25 = [.number 3, .number 9] ∧
    ∃ state later,
      after table 0 = running state ⟨some 10, .restore (some 25)⟩ ∧
      (after table 1).delivered table 3 = [.number 3, .number 9] ∧
      after table 4 = running later ⟨some 50, .read [⟨"A", []⟩]⟩ ∧
      later.dispatch table ⟨some 50, .read [⟨"A", []⟩]⟩ =
        .error (.error .outOfData) { later with next := later.pc + 1 } := by
  intro table
  have hdata : readings.dataFrom 25 = [.number 3, .number 9] := by
    rw [← Table.drop_dataPosition]
    rfl
  have hearlier : ∀ earlier < 3,
      ((after table 1).advanceMany table earlier).atRestore = false := by
    decide +kernel
  have hdelivered : (after table 1).delivered table 3 =
      [.number 3, .number 9] := by
    decide +kernel
  obtain ⟨state, hstate⟩ : ∃ state,
      after table 0 = running state ⟨some 10, .restore (some 25)⟩ :=
    ⟨_, rfl⟩
  obtain ⟨later, hlater⟩ : ∃ later,
      after table 4 = running later ⟨some 50, .read [⟨"A", []⟩]⟩ := by
    have hrunning : (after table 4).isRunning = true := by decide +kernel
    have hpc : (after table 4).state.pc = 4 := by decide +kernel
    have hsound := sound_after readings 4
    cases hafter : after table 4 with
    | running later line =>
        have hline := hsound.at_hand later line hafter
        rw [hafter] at hpc
        rw [show later.pc = 4 from hpc] at hline
        cases hline
        exact ⟨later, rfl⟩
    | ended state =>
        rw [hafter] at hrunning
        cases hrunning
    | broken defect state =>
        rw [hafter] at hrunning
        cases hrunning
  refine ⟨hdata, state, later, hstate, hdelivered, hlater, ?_⟩
  have hrestored : (running state ⟨some 10, .restore (some 25)⟩).advance table =
      after table 1 := by
    rw [after_succ, hstate]
  rw [← hrestored] at hearlier
  obtain ⟨rest, hrest, hhands⟩ :=
    (delivered_after_restore readings 25).1 rfl 3 hearlier
  rw [hrestored] at hrest hhands
  obtain rfl : rest = [] := by
    rw [hdata, hdelivered] at hrest
    exact List.self_eq_append_right.mp hrest
  rw [← after_add] at hhands
  exact hhands hlater rfl

end NumberedBasic
