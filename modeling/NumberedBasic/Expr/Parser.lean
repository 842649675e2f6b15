import NumberedBasic.Expr
import NumberedBasic.Token.Cursor

/-!
# Reading expressions

Six levels of left-associative operators, from OR down to multiplication;
then prefix operators; then powers, which associate to the right, bind more
tightly than a prefix operator on their left, and take a prefixed exponent.
The kind of a token decides on its level, and its text on the operator.

Every rule carries the number of rules that may still be entered one inside
another, each level of operators being a rule of its own.  A host sets that
limit; when it runs out the expression counts as too deeply nested.
-/

namespace NumberedBasic

namespace Parser

/-! ## Operators by level -/

/-- The levels of left-associative operators, loosest first. -/
def operatorLevels : List (List TokenKind) :=
  [[.keyword .orWord],
   [.keyword .andWord],
   [.sign .equal, .sign .notEqual],
   [.sign .less, .sign .greater, .sign .lessEqual, .sign .greaterEqual],
   [.sign .plus, .sign .minus],
   [.sign .times, .sign .divide]]

def prefixOps : List TokenKind :=
  [.keyword .notWord, .sign .minus, .sign .plus]

/-- The bracket that closes an opening one. -/
def closing? : TokenKind → Option TokenKind
  | .sign .leftParen => some (.sign .rightParen)
  | .sign .leftBracket => some (.sign .rightBracket)
  | _ => none

/-! ## Left-associative levels -/

/-- Goes on with a chain of operators, given what stands on the left.  The
number of tokens left bounds the number of operators. -/
def chainRest (level : List TokenKind) (operand : Parser Expr) :
    (rounds : Nat) → Expr → Parser Expr
  | 0, left => return left
  | rounds + 1, left => do
      match ← acceptAny level with
      | none => return left
      | some token =>
          let right ← operand
          chainRest level operand rounds (.binaryOf token.text left right)

def chain (level : List TokenKind) (operand : Parser Expr) :
    Parser Expr := do
  let left ← operand
  chainRest level operand (← remaining) left

/-! ## Rules that nest -/

def numeral (token : Token) : Parser Expr :=
  match Decimal.entireNumber? token.text.toList with
  | some x => return .number x
  | none => throw .unreadableNumeral

def variableName : Parser String :=
  return (← demand [.identifier] .variableName).text

mutual

def expression : (depth : Nat) → Parser Expr
  | 0 => refuse .nestedTooDeep
  | depth + 1 => chains depth operatorLevels

/-- Chains of chains, the loosest level outermost. -/
def chains : (depth : Nat) → (levels : List (List TokenKind)) → Parser Expr
  | 0, _ => refuse .nestedTooDeep
  | depth + 1, [] => prefixed depth
  | depth + 1, level :: tighter => chain level (chains depth tighter)

def prefixed : (depth : Nat) → Parser Expr
  | 0 => refuse .nestedTooDeep
  | depth + 1 => do
      match ← acceptAny prefixOps with
      | some token => return .unaryOf token.text (← prefixed depth)
      | none => power depth

def power : (depth : Nat) → Parser Expr
  | 0 => refuse .nestedTooDeep
  | depth + 1 => do
      let base ← primary depth
      match ← acceptAny [.sign .caret] with
      | some token => return .binaryOf token.text base (← prefixed depth)
      | none => return base

def primary : (depth : Nat) → Parser Expr
  | 0 => refuse .nestedTooDeep
  | depth + 1 => do
      let token ← peek
      match token.kind with
      | .number => modify Cursor.skip; numeral token
      | .string => modify Cursor.skip; return .text token.text
      | .sign .leftParen =>
          modify Cursor.skip
          let inner ← expression depth
          let _ ← demand [.sign .rightParen] .closingParen
          return inner
      | .identifier => return (← place depth).toExpr
      | _ => unexpected

/-- A scalar, or an array element with its indices in brackets that match. -/
def place : (depth : Nat) → Parser Place
  | 0 => refuse .nestedTooDeep
  | depth + 1 => do
      let name ← variableName
      match ← accept closing? with
      | none => return ⟨name, []⟩
      | some closing =>
          let indices ← expressionList depth
          let _ ← demand [closing] .closingIndices
          return ⟨name, indices⟩

def expressionList : (depth : Nat) → Parser (List Expr)
  | 0 => refuse .nestedTooDeep
  | depth + 1 => commaList (expression depth) (expression depth)

end

end Parser

end NumberedBasic
