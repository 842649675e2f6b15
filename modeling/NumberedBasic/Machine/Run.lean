import NumberedBasic.Machine.Exec

/-!
# Running a program

A run dispatches the statement at the program counter until it comes to the
end of the table, to an END or to an error.  `Progress.advance` is one
dispatch, so that the state after a number of dispatches is that function
iterated.
-/

namespace NumberedBasic

variable [Host]

/-- Where a run has got to. -/
inductive Progress where
  /-- The line is about to be dispatched. -/
  | running (state : State) (line : Line)
  | ended (state : State)
  | broken (defect : Defect) (state : State)

namespace Progress

def state : Progress → State
  | running state _ => state
  | ended state => state
  | broken _ state => state

def output (progress : Progress) : Array String := progress.state.output

def isRunning : Progress → Bool
  | running _ _ => true
  | _ => false

end Progress

namespace State

/-- Goes on with the statement at the program counter, if there is one and
the program has not come to its END. -/
def settle (table : Table) (state : State) : Progress :=
  match if state.running then table.line? state.pc else none with
  | some line => .running state line
  | none => .ended { state with running := false }

/-- Carries out the statement at hand. -/
def dispatch (table : Table) (state : State) (line : Line) :
    EStateM.Result Halt State Unit :=
  line.statement.exec table { state with next := state.pc + 1 }

/-- Stops with a diagnostic for the line at hand as the last entry. -/
def stopWith (state : State) (line : Line) (error : RunError) : State :=
  let diagnostic : Diagnostic := ⟨error.message, line.number⟩
  { state with
    running := false
    notes := state.notes.push (.stopped state.pc diagnostic)
    output := state.output.push diagnostic.text }

/-- What follows from the result of a dispatch. -/
def resume (table : Table) (line : Line) :
    EStateM.Result Halt State Unit → Progress
  | .ok _ state => settle table { state with pc := state.next }
  | .error (.error error) state => .ended (state.stopWith line error)
  | .error (.defect defect) state =>
      .broken defect { state with running := false }

end State

namespace Progress

/-- One dispatch; a run that is over stays as it is. -/
def advance (table : Table) : Progress → Progress
  | running state line =>
      State.resume table line (state.dispatch table line)
  | finished => finished

/-- The beginning of a run. -/
def start (table : Table) : Progress :=
  State.settle table
    { State.fresh with
      running := true
      notes := #[.organised table.size table.data.length] }

/-- A number of dispatches, or fewer if the run is over before. -/
def advanceMany (table : Table) : (count : Nat) → Progress → Progress
  | 0, progress => progress
  | count + 1, running state line =>
      advanceMany table count (advance table (running state line))
  | _ + 1, finished => finished

/-- The run after a number of dispatches from its beginning. -/
def after (table : Table) (count : Nat) : Progress :=
  advanceMany table count (start table)

/-- The state of a run that is given up before its next dispatch. -/
def cutOff : Progress → State
  | running state _ => { state with running := false, next := state.pc + 1 }
  | ended state => state
  | broken _ state => state

/-- The states right after each completed dispatch, latest first, and where
the run has got to. -/
def trace (table : Table) : (count : Nat) → (seen : List State) → Progress →
    List State × Progress
  | 0, seen, progress => (seen, progress)
  | count + 1, seen, running state line =>
      match state.dispatch table line with
      | .ok value completed =>
          trace table count (completed :: seen)
            (State.resume table line (.ok value completed))
      | failed => (seen, State.resume table line failed)
  | _ + 1, seen, finished => (seen, finished)

theorem advanceMany_succ (table : Table) (count : Nat) (progress : Progress) :
    advanceMany table (count + 1) progress =
      advanceMany table count (advance table progress) := by
  cases progress with
  | running state line => rfl
  | ended state => cases count <;> rfl
  | broken defect state => cases count <;> rfl

end Progress

end NumberedBasic
