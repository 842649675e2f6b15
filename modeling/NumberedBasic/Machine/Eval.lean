import NumberedBasic.Machine.State

/-!
# The value of an expression

Operands are computed from left to right, and both operands of an operator
always are.  An array must exist before any of its indices is computed.
Computing a value changes nothing.

The value is that of an evaluation within the host's limit on recursion: unlike
the parser, an evaluation does not answer for how deeply it nests.
-/

namespace NumberedBasic

def Halt.ofRun {α : Type} : Except RunError α → Except Halt α
  | .ok value => .ok value
  | .error cause => .error (.error cause)

mutual

def Expr.eval (memory : Memory) : Expr → Except Halt Value
  | .number x => .ok (.number x)
  | .text s => .ok (.text s)
  | .reference name [] => .ok (memory.scalars.get name)
  | .reference name (first :: others) => do
      let _ ← memory.arrays.block name
      let index ← evalIndices memory .arrayIndex (first :: others)
      memory.arrays.get name index
  | .unary op operand => do
      let value ← operand.eval memory
      return op.apply value
  | .binary op left right => do
      let leftValue ← left.eval memory
      let rightValue ← right.eval memory
      Halt.ofRun (op.apply leftValue rightValue)
  | .unaryOther symbol operand => do
      let _ ← operand.eval memory
      throw (.defect (.unknownOperator symbol))
  | .binaryOther symbol left right => do
      let _ ← left.eval memory
      let _ ← right.eval memory
      throw (.defect (.unknownOperator symbol))
  | .unknown kind => .error (.error (.unknownKind kind))

/-- Whole numbers from expressions, each computed and converted in turn. -/
def evalIndices (memory : Memory) (use : NumericUse) :
    List Expr → Except Halt (List Int)
  | [] => .ok []
  | first :: others => do
      let value ← first.eval memory
      let index ← Halt.ofRun (value.toIndex use)
      let rest ← evalIndices memory use others
      return index :: rest

end

/-- A number from an expression that must be numeric. -/
def Expr.evalNumber (memory : Memory) (use : NumericUse) (expr : Expr) :
    Except Halt Float := do
  let value ← expr.eval memory
  Halt.ofRun (value.expectNumber (some use))

end NumberedBasic
