import NumberedBasic.Expr

/-!
# Statements and programs

A program is a list of lines in the order in which they were written, each a
statement that may carry a line number.  Statements in the branches of an IF
carry none.
-/

namespace NumberedBasic

/-- What stands between the items of a PRINT, or after the last. -/
inductive Separator where
  | comma
  | semicolon
  /-- A mark without effect. -/
  | other
  deriving DecidableEq, Repr

/-- One array of a DIM, with the greatest index of each dimension. -/
structure Declaration where
  name : String
  bounds : List Expr

inductive Statement where
  /-- A separator for every item but the first, and one after the last. -/
  | print (items : List Expr) (separators : List Separator)
      (ending : Option Separator)
  | assign (target : Place) (value : Expr)
  | goto (target : Option Int)
  | ifThen (condition : Expr) (branch : Statement)
  | ifElse (condition : Expr) (branch otherwise : Statement)
  | forLoop (name : String) (start limit : Expr) (step : Option Expr)
  /-- Without names, the most recent loop. -/
  | next (names : List String)
  | data (values : List Value)
  | read (targets : List Place)
  /-- Without a target, the beginning of the data. -/
  | restore (target : Option Int)
  | dim (arrays : List Declaration)
  | stop
  | remark (comment : String)
  /-- A kind of statement that has no meaning here. -/
  | unknown (kind : String)

instance : Inhabited Statement := ⟨.stop⟩

/-- A statement of a program, with its number if it has one. -/
structure Line where
  number : Option Int
  statement : Statement

abbrev Program := List Line

/-- The values that a line contributes to the data of a program.  A DATA in
the branch of an IF contributes none. -/
def Line.data (line : Line) : List Value :=
  match line.statement with
  | .data values => values
  | _ => []

def Line.isData (line : Line) : Bool :=
  match line.statement with
  | .data _ => true
  | _ => false

end NumberedBasic
