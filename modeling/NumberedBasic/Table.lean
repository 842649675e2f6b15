import NumberedBasic.Statement

/-!
# The statement table

A program is executed in the order of its line numbers.  Lines that share a
number stay in the order in which they were written, and so do the lines
without a number, which come last.  The values of the DATA statements in that
order form the data of the program.
-/

namespace NumberedBasic

/-- The order of execution of two lines; an unnumbered line never comes
before a numbered one. -/
def Line.precedes (first second : Line) : Bool :=
  match first.number, second.number with
  | some m, some n => m ≤ n
  | none, some _ => false
  | _, none => true

/-- Puts a line in front of the first line that it precedes. -/
def Line.insertInto (line : Line) : List Line → List Line
  | [] => [line]
  | head :: tail =>
      if line.precedes head then line :: head :: tail
      else head :: line.insertInto tail

/-- The lines in order of execution.  A line is inserted before the lines of
the same number, all of which were written after it. -/
def Program.arrange (program : Program) : List Line :=
  program.foldr Line.insertInto []

structure Table where
  lines : List Line
  data : List Value

namespace Table

def ofProgram (program : Program) : Table :=
  let lines := program.arrange
  ⟨lines, lines.flatMap Line.data⟩

def size (table : Table) : Nat := table.lines.length

/-- The line at an index, counted from zero. -/
def line? (table : Table) (index : Int) : Option Line :=
  if 0 ≤ index then table.lines[index.toNat]? else none

/-- The line at an index; a negative one counts from the end. -/
def lineFromEither? (table : Table) (index : Int) : Option Line :=
  if 0 ≤ index then table.line? index else table.line? (table.size + index)

/-- The index of the first line with the given number. -/
def findLine (table : Table) (target : Option Int) : Except RunError Int :=
  match table.lines.findIdx? (·.number = target) with
  | some index => .ok index
  | none => .error (.undefinedLine target)

/-- A DATA at or after a line number. -/
def isDataFrom (target : Int) (line : Line) : Bool :=
  line.isData &&
    match line.number with
    | some number => target ≤ number
    | none => false

/-- The position in the data of the first DATA at or after a line number, or
the end of the data if there is none. -/
def dataPosition (table : Table) (target : Int) : Nat :=
  ((table.lines.takeWhile (!isDataFrom target ·)).flatMap Line.data).length

end Table

end NumberedBasic
