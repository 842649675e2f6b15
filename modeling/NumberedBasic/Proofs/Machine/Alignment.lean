import Mathlib.Data.Set.Basic
import NumberedBasic.Proofs.Machine.Evaluation
import NumberedBasic.Proofs.Machine.Relation
import NumberedBasic.Proofs.Numbering.Renumber

/-!
# Tables that correspond

Two tables correspond when the places in one, and the line numbers in one,
answer to those in the other.  Two states are aligned when they differ only in
that respect.  A statement and its renumbered form then keep states aligned,
whatever they do, so that a run of one program can be followed in the other.
-/

namespace NumberedBasic

/-! ## Correspondence -/

/-- How the line numbers and the places of one table answer to those of
another. -/
structure Alignment where
  number : Int → Int
  /-- Where the statement at an index stands in the other table. -/
  index : Int → Int
  /-- Going on at the one place is answered by going on at the other. -/
  Place : Int → Int → Prop

/-- What searching for the target of a jump or for data gives in the two
tables. -/
structure Alignment.Tables (alignment : Alignment)
    (jumps : Set (Option Int)) (numbers : Set Int)
    (table table' : Table) : Prop where
  data : table'.data = table.data
  findLine : ∀ target ∈ jumps,
    outcomesRelated alignment.Place
      (fun error error' => error' = error.renumber alignment.number)
      (table.findLine target) (table'.findLine (target.map alignment.number))
  dataPosition : ∀ number ∈ numbers,
    table'.dataPosition (alignment.number number) = table.dataPosition number

/-- The loop of the other run. -/
def Loop.moved (index : Int → Int) (loop : Loop) : Loop :=
  { loop with forIndex := index loop.forIndex }

/-- What a statement decides about the course of the run: the index to go on
with, and whether to go on at all. -/
def State.course (state : State) : Int × Bool := (state.next, state.running)

/-- Two states at given statements that agree in everything but places, and
whose courses are related in a given way. -/
structure Alignment.States (alignment : Alignment)
    (Course : Int × Bool → Int × Bool → Prop) (pc pc' : Int)
    (state state' : State) : Prop where
  memory : state'.toMemory = state.toMemory
  pc : state.pc = pc
  pc' : state'.pc = pc'
  course : Course state.course state'.course
  dataPosition : state'.dataPosition = state.dataPosition
  loops : state'.loops = state.loops.map (Loop.moved alignment.index)
  loops_lead : ∀ loop ∈ state.loops,
    alignment.Place (loop.forIndex + 1) (alignment.index loop.forIndex + 1)
  output : state'.output = state.output

/-- Courses that lead to places answering to each other. -/
def Alignment.Course (alignment : Alignment) (course course' : Int × Bool) :
    Prop :=
  alignment.Place course.1 course'.1 ∧ course'.2 = course.2

/-- Courses of which nothing is said. -/
def anyCourse (_ _ : Int × Bool) : Prop := True

theorem Alignment.States.weaken {alignment : Alignment}
    {Course Weaker : Int × Bool → Int × Bool → Prop} {pc pc' : Int}
    {state state' : State} (hstates : alignment.States Course pc pc' state state')
    (hweaker : ∀ course course', Course course course' → Weaker course course') :
    alignment.States Weaker pc pc' state state' :=
  { hstates with course := hweaker _ _ hstates.course }

/-- Two statements that stop do so for answering causes, in aligned states. -/
def Alignment.Stops (alignment : Alignment) (pc pc' : Int)
    (halt halt' : Halt) (state state' : State) : Prop :=
  halt' = halt.renumber alignment.number ∧
    alignment.States anyCourse pc pc' state state'

/-! ## Loops -/

namespace Loops

variable (index : Int → Int) (loops : Loops)

theorem find_moved (name : Option String) :
    find (loops.map (Loop.moved index)) name =
      (loops.find name).map (Loop.moved index) := by
  cases name with
  | none =>
      rw [find, find, List.getLast?_map]
      cases loops.getLast? <;> rfl
  | some name =>
      have hnames : (fun loop : Loop => decide (loop.name = name)) ∘
          Loop.moved index = fun loop => decide (loop.name = name) := rfl
      rw [find, find, List.find?_map, hnames]
      cases loops.find? (·.name = name) <;> rfl

theorem changed_moved (loop : Loop) :
    changed (loops.map (Loop.moved index)) (loop.moved index) =
      (loops.changed loop).map (Loop.moved index) := by
  rw [changed, changed, List.map_map, List.map_map]
  apply List.map_congr_left
  intro other _
  by_cases hname : other.name = loop.name <;> simp [Loop.moved, hname]

theorem filter_moved (name : String) :
    (loops.map (Loop.moved index)).filter (·.name ≠ name) =
      (loops.filter (·.name ≠ name)).map (Loop.moved index) := by
  rw [List.filter_map]
  rfl

theorem opened_moved (loop : Loop) :
    opened (loops.map (Loop.moved index)) (loop.moved index) =
      (loops.opened loop).map (Loop.moved index) := by
  rw [opened, opened, List.map_append, List.map_singleton, ← filter_moved]
  rfl

theorem closed_moved (loop : Loop) :
    closed (loops.map (Loop.moved index)) (loop.moved index) =
      (loops.closed loop).map (List.map (Loop.moved index)) := by
  have hopen : (loops.map (Loop.moved index)).any
      (·.name = (loop.moved index).name) = loops.any (·.name = loop.name) :=
    List.any_map
  unfold closed
  rw [hopen]
  split
  · exact congrArg Except.ok (filter_moved index loops loop.name)
  · rfl

end Loops

end NumberedBasic
