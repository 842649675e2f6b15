import NumberedBasic.Proofs.Machine.Following
import NumberedBasic.Proofs.Machine.Silent

/-!
# The output, dispatch by dispatch

A statement writes one entry at most, and none at all where it stops.  What a
run has put out is therefore what its dispatches have written, in order.
-/

namespace NumberedBasic

namespace Exec

/-- The action adds one entry at most to the output, and none where it
stops. -/
def WritesOnce (action : Exec Unit) : Prop :=
  ∀ entries, Meets (fun state => state.output = entries) action
    (fun _ state => ∃ written : List String, written.length ≤ 1 ∧
      state.output = entries ++ written.toArray)
    (fun _ state => state.output = entries)

theorem Silent.writesOnce {action : Exec Unit} (haction : Silent action) :
    WritesOnce action := by
  intro entries
  apply Meets.weaken (haction entries)
  · exact fun _ hstate => hstate
  · exact fun _ _ hkept => ⟨[], Nat.zero_le 1, by simp [hkept]⟩
  · exact fun _ _ hstopped => hstopped.1

theorem writesOnce_write (entry : String) : WritesOnce (write entry) := by
  intro entries
  apply Meets.modify
  rintro state rfl
  exact ⟨[entry], Nat.le_refl 1, rfl⟩

theorem Silent.bind_writesOnce {α : Type} {action : Exec α}
    {next : α → Exec Unit} (haction : Silent action)
    (hnext : ∀ value, WritesOnce (next value)) :
    WritesOnce (action >>= next) := by
  intro entries
  have hsilent : Meets (fun state => state.output = entries) action
      (fun _ state => state.output = entries)
      (fun _ state => state.output = entries) := by
    apply Meets.weaken (haction entries)
    · exact fun _ hstate => hstate
    · exact fun _ _ hkept => hkept
    · exact fun _ _ hstopped => hstopped.1
  exact Meets.bind hsilent fun value => hnext value entries

theorem WritesOnce.ite {condition : Bool} {first second : Exec Unit}
    (hfirst : WritesOnce first) (hsecond : WritesOnce second) :
    WritesOnce (if condition then first else second) := by
  cases condition
  · exact hsecond
  · exact hfirst

end Exec

theorem Statement.writesOnce_exec [Host] (table : Table) (statement : Statement) :
    Exec.WritesOnce (statement.exec table) := by
  induction statement with
  | print items separators ending =>
      apply Exec.Silent.bind_writesOnce (Exec.spares_compute _)
      exact fun _ => Exec.writesOnce_write _
  | assign target value =>
      apply Exec.Silent.writesOnce
      apply (Exec.spares_compute _).bind
      exact fun value => Exec.preserves_assign Exec.admits_any (fun _ _ => rfl)
        (Exec.aside_output.hidden _) value
  | goto target =>
      apply Exec.Silent.writesOnce
      refine Exec.Preserves.bind (.ofRun fun _ _ => trivial) ?_
      exact fun index =>
        Exec.preserves_jump (fun _ _ => rfl) (fun _ _ => rfl) index
  | ifThen condition branch ih =>
      apply Exec.Silent.bind_writesOnce (Exec.spares_compute _)
      exact fun _ => Exec.WritesOnce.ite ih (Exec.Silent.writesOnce (.pure _))
  | ifElse condition branch otherwise ihBranch ihOtherwise =>
      apply Exec.Silent.bind_writesOnce (Exec.spares_compute _)
      exact fun _ => Exec.WritesOnce.ite ihBranch ihOtherwise
  | forLoop name start limit step =>
      apply Exec.Silent.writesOnce
      exact Exec.preserves_openFor Exec.admits_any (fun _ _ => rfl)
        (fun _ _ => rfl) (fun _ _ => rfl) start limit step
  | next names =>
      apply Exec.Silent.writesOnce
      exact Exec.spares_nextLoops (fun _ _ => rfl) (fun _ _ => rfl)
        (fun _ _ => rfl) (fun _ _ => rfl) _
  | data values => exact Exec.Silent.writesOnce (.pure _)
  | read targets =>
      apply Exec.Silent.writesOnce
      exact .forM fun target _ => Exec.preserves_readInto Exec.admits_any
        (fun _ _ => rfl) table (fun _ _ => rfl) (Exec.aside_output.hidden _)
  | restore target =>
      cases target <;> exact Exec.Silent.writesOnce (.modify fun _ => rfl)
  | dim arrays =>
      apply Exec.Silent.writesOnce
      exact .forM fun array _ => Exec.preserves_declare Exec.admits_any
        (fun _ _ => rfl) (Exec.aside_output.hidden _)
  | stop => exact Exec.Silent.writesOnce (.modify fun _ => rfl)
  | remark comment => exact Exec.Silent.writesOnce (.pure _)
  | unknown kind => exact Exec.Silent.writesOnce (.throw trivial)

/-! ## Dispatches -/

theorem State.output_of_completed [Host] {table : Table} {state completed : State}
    {line : Line} (hdispatch : state.dispatch table line = .ok () completed) :
    ∃ written : List String, written.length ≤ 1 ∧
      completed.output = state.output ++ written.toArray := by
  have hwrites := line.statement.writesOnce_exec table state.output
    { state with next := state.pc + 1 } rfl
  rw [State.dispatch] at hdispatch
  rw [hdispatch] at hwrites
  exact hwrites

theorem State.output_of_stopped [Host] {table : Table} {state stopped : State}
    {line : Line} {halt : Halt}
    (hdispatch : state.dispatch table line = .error halt stopped) :
    stopped.output = state.output := by
  have hwrites := line.statement.writesOnce_exec table state.output
    { state with next := state.pc + 1 } rfl
  rw [State.dispatch] at hdispatch
  rw [hdispatch] at hwrites
  exact hwrites

theorem State.output_settle (table : Table) (state : State) :
    (state.settle table).output = state.output := by
  rw [State.settle]
  split <;> rfl

namespace Progress

variable [Host]

/-- The entries that a dispatch, counted from zero, adds to the output. -/
def written (table : Table) (count : Nat) : List String :=
  (after table (count + 1)).output.toList.drop (after table count).output.size

/-- A run that is not over has completed every dispatch before. -/
theorem completed_before {table : Table} {count earlier : Nat} {state : State}
    {line : Line} (hrunning : after table count = .running state line)
    (hearlier : earlier < count) :
    ∃ before lineBefore completed,
      after table earlier = .running before lineBefore ∧
      before.dispatch table lineBefore = .ok () completed := by
  have hgoing {other : Nat} (hother : other ≤ count) :
      ∃ state line, after table other = .running state line := by
    apply exists_running
    intro hover
    have hsame := after_of_ending table hother hover
    rw [hrunning] at hsame
    rw [← hsame] at hover
    cases hover
  obtain ⟨before, lineBefore, hbefore⟩ := hgoing (Nat.le_of_lt hearlier)
  obtain ⟨later, lineLater, hlater⟩ := hgoing hearlier
  rw [after_succ, hbefore] at hlater
  obtain ⟨completed, hcompleted, -, -⟩ := of_advance_running hlater
  exact ⟨before, lineBefore, completed, hbefore, hcompleted⟩

/-- A completed dispatch adds what is written to the output, which is one
entry at most. -/
theorem written_of_completed {table : Table} {count : Nat}
    {before completed : State} {line : Line}
    (hrunning : after table count = .running before line)
    (hdispatch : before.dispatch table line = .ok () completed) :
    (written table count).length ≤ 1 ∧
      completed.output.toList = before.output.toList ++ written table count ∧
      (after table (count + 1)).output = completed.output := by
  obtain ⟨entries, hlength, houtput⟩ := State.output_of_completed hdispatch
  have hafter : (after table (count + 1)).output = completed.output := by
    rw [after_succ, hrunning, advance, hdispatch, State.resume]
    exact State.output_settle _ _
  have hwritten : written table count = entries := by
    rw [written, hafter, houtput, hrunning]
    simp [output, state]
  rw [hwritten]
  exact ⟨hlength, by simp [houtput], hafter⟩

/-- As long as a run is not over, its output is what its dispatches have
written. -/
theorem output_of_running {table : Table} {count : Nat} {state : State}
    {line : Line} (hrunning : after table count = .running state line) :
    state.output.toList = (List.range count).flatMap (written table) := by
  induction count generalizing state line with
  | zero =>
      have hstart : (start table).output = #[] := State.output_settle _ _
      change start table = _ at hrunning
      rw [hrunning] at hstart
      exact congrArg Array.toList hstart
  | succ count ih =>
      obtain ⟨before, lineBefore, completed, hbefore, hdispatch⟩ :=
        completed_before hrunning (Nat.lt_succ_self count)
      obtain ⟨-, houtput, hafter⟩ := written_of_completed hbefore hdispatch
      rw [hrunning] at hafter
      change state.output = _ at hafter
      rw [hafter, houtput, ih hbefore, List.range_succ, List.flatMap_append,
        List.flatMap_singleton]

end Progress

end NumberedBasic
