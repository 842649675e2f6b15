import NumberedBasic.Value

/-!
# Operators on values

The operators of expressions.  Comparisons yield one or zero and treat two
texts as texts and everything else as numbers; logical operators work on
truth, not on bits; only division can fail.
-/

namespace NumberedBasic

/-- Prefix operators. -/
inductive UnaryOp where
  | negate
  | plus
  | not
  deriving DecidableEq, Repr

inductive BinaryOp where
  | or
  | and
  | equal
  | notEqual
  | less
  | greater
  | lessEqual
  | greaterEqual
  | add
  | subtract
  | multiply
  | divide
  | power
  deriving DecidableEq, Repr

def UnaryOp.symbol : UnaryOp → String
  | negate => "-"
  | plus => "+"
  | not => "NOT"

def UnaryOp.all : List UnaryOp := [.negate, .plus, .not]

def UnaryOp.ofSymbol? (symbol : String) : Option UnaryOp :=
  all.find? fun op => op.symbol = symbol

theorem UnaryOp.ofSymbol?_symbol (op : UnaryOp) :
    ofSymbol? op.symbol = some op := by
  cases op <;> rfl

def BinaryOp.symbol : BinaryOp → String
  | or => "OR"
  | and => "AND"
  | equal => "="
  | notEqual => "<>"
  | less => "<"
  | greater => ">"
  | lessEqual => "<="
  | greaterEqual => ">="
  | add => "+"
  | subtract => "-"
  | multiply => "*"
  | divide => "/"
  | power => "^"

def BinaryOp.all : List BinaryOp :=
  [.or, .and, .equal, .notEqual, .less, .greater, .lessEqual, .greaterEqual,
   .add, .subtract, .multiply, .divide, .power]

def BinaryOp.ofSymbol? (symbol : String) : Option BinaryOp :=
  all.find? fun op => op.symbol = symbol

theorem BinaryOp.ofSymbol?_symbol (op : BinaryOp) :
    ofSymbol? op.symbol = some op := by
  cases op <;> rfl

namespace Value

/-! ## Comparison -/

/-- The order of two doubles; what is neither below nor above is level. -/
def compareNumbers (x y : Float) : Ordering :=
  if x < y then .lt else if y < x then .gt else .eq

/-- The order of two texts by code point. -/
def compareTexts (s t : String) : Ordering :=
  if s < t then .lt else if t < s then .gt else .eq

/-- Two texts are compared as texts, and any other pair as numbers. -/
def compare : Value → Value → Ordering
  | text s, text t => compareTexts s t
  | left, right => compareNumbers left.toNumber right.toNumber

/-! ## Arithmetic -/

/-- Adding a text to anything joins the rendered operands. -/
def plus : Value → Value → Value
  | number x, number y => number (x + y)
  | left, right => text (left.render ++ right.render)

/-- A double raised to a power.  A zero to a negative power is infinite
whatever its sign. -/
def raise (base exponent : Float) : Float :=
  if base == 0 && exponent < 0 then Decimal.infinite
  else Float.pow base exponent

def quotient (left right : Value) : Except RunError Value :=
  if right.toNumber == 0 then .error .divisionByZero
  else .ok (number (left.toNumber / right.toNumber))

end Value

/-- The value of a prefix operator. -/
def UnaryOp.apply : UnaryOp → Value → Value
  | negate, value => .number (-value.toNumber)
  | plus, value => .number value.toNumber
  | not, value => .ofBool (!value.isTrue)

/-- The value of an infix operator. -/
def BinaryOp.apply : BinaryOp → Value → Value → Except RunError Value
  | or, left, right => .ok (.ofBool (left.isTrue || right.isTrue))
  | and, left, right => .ok (.ofBool (left.isTrue && right.isTrue))
  | equal, left, right => .ok (.ofBool (left.compare right == .eq))
  | notEqual, left, right => .ok (.ofBool (left.compare right != .eq))
  | less, left, right => .ok (.ofBool (left.compare right == .lt))
  | greater, left, right => .ok (.ofBool (left.compare right == .gt))
  | lessEqual, left, right => .ok (.ofBool (left.compare right != .gt))
  | greaterEqual, left, right => .ok (.ofBool (left.compare right != .lt))
  | add, left, right => .ok (left.plus right)
  | subtract, left, right => .ok (.number (left.toNumber - right.toNumber))
  | multiply, left, right => .ok (.number (left.toNumber * right.toNumber))
  | divide, left, right => left.quotient right
  | power, left, right => .ok (.number (Value.raise left.toNumber right.toNumber))

end NumberedBasic
