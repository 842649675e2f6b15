import NumberedBasic.Machine.Run

/-!
# How a run comes to its end

A run that is over has come to its end or has failed in a way that no text of
a program leads to; the error that made it stop, if there was one, is found at
the dispatch that failed.
-/

namespace NumberedBasic

/-- The two ways in which a run can be over. -/
inductive Ending where
  | ended
  | broken (defect : Defect)
  deriving DecidableEq

namespace Progress

/-- How the run is over, if it is. -/
def ending? : Progress → Option Ending
  | running _ _ => none
  | ended _ => some .ended
  | broken defect _ => some (.broken defect)

/-- The error with which the statement at hand will fail, if it does, and the
line that it will be reported for. -/
def failure? [Host] (table : Table) : Progress → Option (Line × RunError)
  | running state line =>
      match state.dispatch table line with
      | .error (.error error) _ => some (line, error)
      | _ => none
  | _ => none

/-- The error that stops the run within a number of dispatches, if any does. -/
def failureWithin [Host] (table : Table) : (count : Nat) → Progress →
    Option (Line × RunError)
  | 0, _ => none
  | count + 1, progress =>
      match progress.failure? table with
      | some failure => some failure
      | none => failureWithin table count (progress.advance table)

/-- Only a program that has not come to its END goes on. -/
theorem eq_of_settle {table : Table} {state other : State} {line : Line}
    (hsettle : state.settle table = .running other line) :
    other = state ∧ state.running = true ∧ table.line? state.pc = some line := by
  rw [State.settle] at hsettle
  split at hsettle
  next found hfound =>
    obtain ⟨rfl, rfl⟩ := running.inj hsettle
    split at hfound
    next hrunning => exact ⟨rfl, hrunning, hfound⟩
    next => cases hfound
  next => cases hsettle

/-- A run goes on with the line that it finds at the program counter. -/
theorem settle_of_line? {table : Table} (state : State) {line : Line}
    (hrunning : state.running = true)
    (hline : table.line? state.pc = some line) :
    state.settle table = .running state line := by
  rw [State.settle, if_pos hrunning, hline]

theorem exists_running {progress : Progress}
    (hover : ¬progress.ending?.isSome = true) :
    ∃ state line, progress = running state line := by
  cases progress with
  | running state line => exact ⟨state, line, rfl⟩
  | ended state => exact absurd rfl hover
  | broken defect state => exact absurd rfl hover

/-- A run that goes on has completed its dispatch and goes on with the place
that this has led to. -/
theorem of_advance_running [Host] {table : Table} {state later : State}
    {line other : Line}
    (hadvance : (running state line).advance table = running later other) :
    ∃ completed, state.dispatch table line = .ok () completed ∧
      later = { completed with pc := completed.next } ∧ later.running = true := by
  rw [advance] at hadvance
  cases hdispatch : state.dispatch table line with
  | ok _ completed =>
      rw [hdispatch] at hadvance
      obtain ⟨rfl, hrunning, -⟩ := eq_of_settle hadvance
      exact ⟨completed, rfl, rfl, hrunning⟩
  | error halt stopped =>
      rw [hdispatch] at hadvance
      cases halt <;> cases hadvance

theorem advanceMany_of_ending [Host] (table : Table) (count : Nat)
    {progress : Progress} (hover : progress.ending?.isSome = true) :
    progress.advanceMany table count = progress := by
  induction count with
  | zero => rfl
  | succ count ih =>
      rw [advanceMany_succ]
      cases progress with
      | running state line => cases hover
      | ended state => exact ih
      | broken defect state => exact ih

end Progress

end NumberedBasic
