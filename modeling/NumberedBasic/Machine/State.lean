import NumberedBasic.Machine.Note
import NumberedBasic.Memory.Scalars
import NumberedBasic.Table

/-!
# The state of a run

The variables, the pointers into the table and the data, the open loops, and
what has been put out so far.
-/

namespace NumberedBasic

/-- The variables, as far as expressions can see. -/
structure Memory where
  scalars : Scalars
  arrays : Arrays
  deriving DecidableEq

structure State extends Memory where
  /-- The index of the statement at hand. -/
  pc : Int
  /-- The index of the statement to go on with. -/
  next : Int
  /-- How many values of the data have been read. -/
  dataPosition : Nat
  running : Bool
  loops : Loops
  output : Array String
  notes : Array Note

/-- The state before a run. -/
def State.fresh : State where
  scalars := .empty
  arrays := .empty
  pc := 0
  next := 0
  dataPosition := 0
  running := false
  loops := []
  output := #[]
  notes := #[]

/-- An action of a statement: it changes the state and may stop the run, with
the state kept as it is at that point. -/
abbrev Exec := EStateM Halt State

namespace Exec

def fail {α : Type} (error : RunError) : Exec α := throw (.error error)

/-- The result of a computation that changes nothing. -/
def ofExcept {α : Type} : Except Halt α → Exec α
  | .ok value => pure value
  | .error halt => throw halt

def ofRun {α : Type} : Except RunError α → Exec α
  | .ok value => pure value
  | .error error => fail error

def note (note : Note) : Exec Unit :=
  modify fun state => { state with notes := state.notes.push note }

/-- Adds an entry to the output. -/
def write (entry : String) : Exec Unit :=
  modify fun state => { state with output := state.output.push entry }

/-- Goes on with the statement at an index. -/
def jump (index : Int) : Exec Unit := do
  note (.jumped (← get).pc index)
  modify fun state => { state with next := index }

def setScalar (name : String) (value : Value) : Exec Unit :=
  modify fun state => { state with scalars := state.scalars.set name value }

def openLoop (loop : Loop) : Exec Unit := do
  modify fun state => { state with loops := state.loops.opened loop }
  note (.opened loop)

def findLoop (name : Option String) : Exec Loop := do
  ofRun ((← get).loops.find name)

/-- Moves a loop on by one step and tells whether it continues. -/
def iterate (loop : Loop) : Exec (Loop × Bool) := do
  let moved := loop.advance
  modify fun state => { state with loops := state.loops.changed moved }
  return (moved, moved.continues)

def closeLoop (loop : Loop) : Exec Unit := do
  let loops ← ofExcept ((← get).loops.closed loop)
  modify fun state => { state with loops := loops }
  note (.closed loop)

/-- The next value of the data. -/
def readData (table : Table) : Exec Value := do
  let position := (← get).dataPosition
  match table.data[position]? with
  | some value =>
      modify fun state => { state with dataPosition := position + 1 }
      return value
  | none => fail .outOfData

end Exec

end NumberedBasic
