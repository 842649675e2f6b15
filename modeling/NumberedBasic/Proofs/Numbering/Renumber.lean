import NumberedBasic.Memory.Arrays
import NumberedBasic.Statement

/-!
# Other numbers for the lines of a program

Renumbering replaces the numbers of the lines and the targets of GOTO and
RESTORE, in branches as well, and with them the one number that a run-time
error can name.
-/

namespace NumberedBasic

/-! ## Renumbering -/

def Statement.renumber (f : Int → Int) : Statement → Statement
  | .goto target => .goto (target.map f)
  | .restore target => .restore (target.map f)
  | .ifThen condition branch => .ifThen condition (branch.renumber f)
  | .ifElse condition branch otherwise =>
      .ifElse condition (branch.renumber f) (otherwise.renumber f)
  | statement => statement

def Line.renumber (f : Int → Int) (line : Line) : Line :=
  ⟨line.number.map f, line.statement.renumber f⟩

def Program.renumber (f : Int → Int) (program : Program) : Program :=
  program.map (Line.renumber f)

/-- The error with the target of a failed jump replaced. -/
def RunError.renumber (f : Int → Int) : RunError → RunError
  | .undefinedLine target => .undefinedLine (target.map f)
  | error => error

def Halt.renumber (f : Int → Int) : Halt → Halt
  | .error cause => .error (cause.renumber f)
  | .defect cause => .defect cause

/-! ## The numbers in a program -/

/-- The targets of the jumps and of the RESTOREs. -/
def Statement.numbers : Statement → List Int
  | .goto target => target.toList
  | .restore target => target.toList
  | .ifThen _ branch => branch.numbers
  | .ifElse _ branch otherwise => branch.numbers ++ otherwise.numbers
  | _ => []

/-- The targets of the jumps alone; a GOTO without a target goes to the first
line without a number. -/
def Statement.jumps : Statement → List (Option Int)
  | .goto target => [target]
  | .ifThen _ branch => branch.jumps
  | .ifElse _ branch otherwise => branch.jumps ++ otherwise.jumps
  | _ => []

theorem Statement.mem_numbers_of_mem_jumps {statement : Statement}
    {target : Option Int} (htarget : target ∈ statement.jumps) {number : Int}
    (hnumber : number ∈ target) : number ∈ statement.numbers := by
  induction statement with
  | goto named =>
      rw [List.mem_singleton.mp htarget] at hnumber
      exact Option.mem_toList.mpr hnumber
  | ifThen condition branch ih => exact ih htarget
  | ifElse condition branch otherwise ihBranch ihOtherwise =>
      rcases List.mem_append.mp htarget with hbranch | hotherwise
      · exact List.mem_append_left _ (ihBranch hbranch)
      · exact List.mem_append_right _ (ihOtherwise hotherwise)
  | _ => exact absurd htarget List.not_mem_nil

def Line.numbers (line : Line) : List Int :=
  line.number.toList ++ line.statement.numbers

def Program.numbers (program : Program) : List Int :=
  program.flatMap Line.numbers

def Program.jumps (program : Program) : List (Option Int) :=
  program.flatMap fun line => line.statement.jumps

/-! ## What renumbering leaves alone -/

@[simp]
theorem RunError.code_renumber (f : Int → Int) (error : RunError) :
    (error.renumber f).code = error.code := by
  cases error <;> rfl

/-- Only an error that names a line changes. -/
theorem RunError.renumber_cases (f : Int → Int) (error : RunError) :
    error.renumber f = error ∨
      ∃ target, error = .undefinedLine (some target) ∧
        error.renumber f = .undefinedLine (some (f target)) := by
  cases error with
  | undefinedLine target =>
      cases target with
      | none => exact Or.inl rfl
      | some target => exact Or.inr ⟨target, rfl, rfl⟩
  | _ => exact Or.inl rfl

@[simp]
theorem Line.number_renumber (f : Int → Int) (line : Line) :
    (line.renumber f).number = line.number.map f := rfl

@[simp]
theorem Line.statement_renumber (f : Int → Int) (line : Line) :
    (line.renumber f).statement = line.statement.renumber f := rfl

@[simp]
theorem Line.data_renumber (f : Int → Int) (line : Line) :
    (line.renumber f).data = line.data := by
  obtain ⟨number, statement⟩ := line
  cases statement <;> rfl

@[simp]
theorem Line.isData_renumber (f : Int → Int) (line : Line) :
    (line.renumber f).isData = line.isData := by
  obtain ⟨number, statement⟩ := line
  cases statement <;> rfl

@[simp]
theorem Statement.renumber_id (statement : Statement) :
    statement.renumber id = statement := by
  induction statement <;> simp_all [Statement.renumber]

@[simp]
theorem RunError.renumber_id (error : RunError) : error.renumber id = error := by
  cases error <;> simp [RunError.renumber]

end NumberedBasic
