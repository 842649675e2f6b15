import NumberedBasic.Host
import NumberedBasic.OrderedMap
import NumberedBasic.Value

/-!
# Array variables

The elements of an array lie side by side in one block, the first index
changing fastest.  A bound is the greatest index of its dimension.  Reading
outside the bounds yields zero and writing there has no effect.
-/

namespace NumberedBasic

/-! ## Positions of elements -/

/-- The position of an element in its block; none unless there is one index
for each bound and every index lies within its bound. -/
def flatIndex : (index bounds : List Int) → Option Int
  | [], [] => some 0
  | i :: index, bound :: bounds =>
      if 0 ≤ i ∧ i ≤ bound then
        (flatIndex index bounds).map fun position => i + (bound + 1) * position
      else none
  | _, _ => none

/-- The number of elements within some bounds. -/
def cellCount : (bounds : List Int) → Int
  | [] => 1
  | bound :: bounds => (bound + 1) * cellCount bounds

/-- One array: its bounds and its elements in order of position. -/
structure Block where
  bounds : List Int
  cells : Array Value
  deriving DecidableEq

/-! ## Faults -/

/-- Faults that no program text leads to. -/
inductive Defect where
  /-- A PRINT has too few separators for its items. -/
  | missingSeparator
  /-- An element lies outside the block of its array. -/
  | outsideBlock (array : String)
  /-- A loop to be closed is not open. -/
  | missingLoop (name : String)
  /-- No operator is spelled like that. -/
  | unknownOperator (symbol : String)
  deriving DecidableEq, Repr

/-- Why a statement was not completed. -/
inductive Halt where
  | error (error : RunError)
  | defect (defect : Defect)
  deriving DecidableEq, Repr

/-! ## The arrays of a program -/

structure Arrays where
  blocks : OrderedMap String Block
  deriving DecidableEq

namespace Arrays

def empty : Arrays := ⟨.empty⟩

def contains (arrays : Arrays) (name : String) : Bool :=
  arrays.blocks.contains name

/-- The array of a given name, which must have been dimensioned. -/
def block (arrays : Arrays) (name : String) : Except Halt Block :=
  match arrays.blocks.get? name with
  | some block => .ok block
  | none => .error (.error (.undefinedArray name))

/-- Dimensions an array with zeros, in place of any array of that name, if the
host has room for it. -/
def declare [Host] (arrays : Arrays) (name : String) (bounds : List Int) :
    Except RunError Arrays :=
  if bounds.any (· < 0) then .error .negativeDimension
  else if Host.hasRoom (cellCount bounds) then
    let cells := Array.replicate (cellCount bounds).toNat Value.zero
    .ok ⟨arrays.blocks.insert name ⟨bounds, cells⟩⟩
  else .error (.outOfMemory name)

def get (arrays : Arrays) (name : String) (index : List Int) :
    Except Halt Value := do
  let block ← arrays.block name
  match flatIndex index block.bounds with
  | none => return .zero
  | some position =>
      match block.cells[position.toNat]? with
      | some value => return value
      | none => throw (.defect (.outsideBlock name))

/-- Assigns an element; nothing changes outside the bounds. -/
def set (arrays : Arrays) (name : String) (index : List Int) (value : Value) :
    Except Halt Arrays := do
  let block ← arrays.block name
  match flatIndex index block.bounds with
  | none => return arrays
  | some position =>
      if position.toNat < block.cells.size then
        let cells := block.cells.setIfInBounds position.toNat value
        return ⟨arrays.blocks.insert name ⟨block.bounds, cells⟩⟩
      else throw (.defect (.outsideBlock name))

/-- A list in brackets, as debugging texts show it. -/
def listText (items : List String) : String :=
  "[" ++ ", ".intercalate items ++ "]"

def debugText (arrays : Arrays) : String :=
  "\n".intercalate <| arrays.blocks.entries.map fun (name, block) =>
    name ++ listText (block.bounds.map toString) ++ ": " ++
      listText (block.cells.toList.map Value.debugText)

end Arrays

end NumberedBasic
