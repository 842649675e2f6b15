import NumberedBasic.Value.Operators

/-!
# Expressions

Expression trees.  A reference without indices is a scalar variable and one
with indices an array element; the two share names without being related.
-/

namespace NumberedBasic

inductive Expr where
  | number (x : Float)
  | text (s : String)
  | reference (name : String) (indices : List Expr)
  | unary (op : UnaryOp) (operand : Expr)
  | binary (op : BinaryOp) (left right : Expr)
  /-- An operator that has no meaning here. -/
  | unaryOther (symbol : String) (operand : Expr)
  /-- An operator that has no meaning here. -/
  | binaryOther (symbol : String) (left right : Expr)
  /-- A kind of expression that has no meaning here. -/
  | unknown (kind : String)

instance : Inhabited Expr := ⟨.number 0⟩

/-- A prefix operator, as it is spelled, with its operand. -/
def Expr.unaryOf (symbol : String) (operand : Expr) : Expr :=
  match UnaryOp.ofSymbol? symbol with
  | some op => .unary op operand
  | none => .unaryOther symbol operand

/-- An infix operator, as it is spelled, with its operands. -/
def Expr.binaryOf (symbol : String) (left right : Expr) : Expr :=
  match BinaryOp.ofSymbol? symbol with
  | some op => .binary op left right
  | none => .binaryOther symbol left right

/-- A scalar, or an element of an array, that can be assigned to. -/
structure Place where
  name : String
  indices : List Expr

/-- The expression that reads a place. -/
def Place.toExpr (place : Place) : Expr :=
  .reference place.name place.indices

end NumberedBasic
