import NumberedBasic.Machine.Eval

/-!
# The effect of a statement

Every statement computes what it needs before it changes anything, with the
exception of those that handle several items one after another: READ, DIM and
NEXT.
-/

namespace NumberedBasic

namespace Exec

/-- The result of a computation on the variables. -/
def compute {α : Type} (result : Memory → Except Halt α) : Exec α := do
  ofExcept (result (← get).toMemory)

def eval (expr : Expr) : Exec Value := compute expr.eval

def evalLoopBound (expr : Expr) : Exec Float :=
  compute fun memory => expr.evalNumber memory .loopBound

/-- Assigns an array element; a write outside the bounds is only noted. -/
def setElement (name : String) (index : List Int) (value : Value) :
    Exec Unit := do
  let block ← compute fun memory => memory.arrays.block name
  if (flatIndex index block.bounds).isNone then
    note (.droppedWrite name index block.bounds)
  else
    let arrays ← compute fun memory => memory.arrays.set name index value
    modify fun state => { state with arrays := arrays }

/-- Assigns a scalar, or an element of an array, which must exist before its
indices are computed. -/
def assign (place : Place) (value : Value) : Exec Unit := do
  match place.indices with
  | [] => setScalar place.name value
  | indices =>
      let _ ← compute fun memory => memory.arrays.block place.name
      let index ← compute fun memory => evalIndices memory .arrayIndex indices
      setElement place.name index value

/-- Dimensions one array. -/
def declare [Host] (declaration : Declaration) : Exec Unit := do
  let name := declaration.name
  let bounds ← compute fun memory =>
    evalIndices memory .arrayDimension declaration.bounds
  if bounds.any (· < 0) then fail .negativeDimension
  else
    if (← get).arrays.contains name then note (.redimensioned name)
    let arrays ← ofRun ((← get).arrays.declare name bounds)
    modify fun state => { state with arrays := arrays }

/-- Reads one value of the data into a variable. -/
def readInto (table : Table) (target : Place) : Exec Unit := do
  assign target (← readData table)

/-- Moves loops on, one after another, up to the first that continues. -/
def nextLoops : List (Option String) → Exec Unit
  | [] => pure ()
  | name :: others => do
      let (loop, more) ← iterate (← findLoop name)
      setScalar loop.name (.number loop.current)
      if more then jump (loop.forIndex + 1)
      else
        closeLoop loop
        nextLoops others

def openFor (name : String) (start stop : Expr) (step : Option Expr) :
    Exec Unit := do
  let startValue ← evalLoopBound start
  let stopValue ← evalLoopBound stop
  let stepValue ←
    match step with
    | none => pure 1
    | some step => evalLoopBound step
  openLoop ⟨name, startValue, stopValue, stepValue, (← get).pc⟩
  setScalar name (.number startValue)

end Exec

/-! ## The text of a PRINT -/

/-- The texts of the items after the first, each after its separator. -/
def printedRest (memory : Memory) :
    List Expr → List Separator → Except Halt (List String)
  | [], _ => .ok []
  | _ :: _, [] => .error (.defect .missingSeparator)
  | item :: items, separator :: separators => do
      let value ← item.eval memory
      let rest ← printedRest memory items separators
      return (if separator = .comma then "\t" else "") :: value.render :: rest

/-- The texts of all items, with a tab for each comma between them. -/
def printedItems (memory : Memory) (separators : List Separator) :
    List Expr → Except Halt (List String)
  | [] => .ok []
  | first :: others => do
      let value ← first.eval memory
      let rest ← printedRest memory others separators
      return value.render :: rest

/-- Only a semicolon after the last item keeps the line open. -/
def lineEnd (ending : Option Separator) : String :=
  if ending = some .semicolon then "" else "\n"

/-! ## Statements -/

/-- The loops that a NEXT moves on; without names, the most recent one. -/
def nextTargets : List String → List (Option String)
  | [] => [none]
  | names => names.map some

def Statement.exec [Host] (table : Table) : Statement → Exec Unit
  | .print items separators ending => do
      let texts ← Exec.compute fun memory =>
        printedItems memory separators items
      Exec.write (String.join texts ++ lineEnd ending)
  | .assign target value => do
      Exec.assign target (← Exec.eval value)
  | .goto target => do
      Exec.jump (← Exec.ofRun (table.findLine target))
  | .ifThen condition branch => do
      if (← Exec.eval condition).isTrue then branch.exec table
  | .ifElse condition branch otherwise => do
      if (← Exec.eval condition).isTrue then branch.exec table
      else otherwise.exec table
  | .forLoop name start limit step => Exec.openFor name start limit step
  | .next names => Exec.nextLoops (nextTargets names)
  | .data _ => pure ()
  | .read targets => targets.forM (Exec.readInto table)
  | .restore none =>
      modify fun state => { state with dataPosition := 0 }
  | .restore (some target) =>
      modify fun state =>
        { state with dataPosition := table.dataPosition target }
  | .dim arrays => arrays.forM Exec.declare
  | .stop => modify fun state => { state with running := false }
  | .remark _ => pure ()
  | .unknown kind => Exec.fail (.unknownKind kind)

end NumberedBasic
