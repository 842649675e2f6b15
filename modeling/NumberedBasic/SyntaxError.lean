import NumberedBasic.Token
import NumberedBasic.Text.Quoted

/-!
# Syntax errors

Why source text is refused, and where.  The wording of every cause is in
`SyntaxCause.message`.
-/

namespace NumberedBasic

/-- What a statement or expression needed at some point. -/
inductive Expected where
  | closingParen
  | variableName
  | closingIndices
  | assignment
  | jumpTarget
  | thenWord
  | branchStatement
  | loopVariable
  | loopAssignment
  | loopLimit
  | listedVariable
  | signedNumber
  | dataItem
  | arrayName
  | openingDimensions
  | closingDimensions
  deriving DecidableEq, Repr

def Expected.message : Expected → String
  | closingParen => "Expected ')' after expression"
  | variableName => "Expected variable name"
  | closingIndices => "Expected closing bracket after array indices"
  | assignment => "Expected '=' after variable"
  | jumpTarget => "Expected line number after GOTO"
  | thenWord => "Expected THEN after IF condition"
  | branchStatement => "Expected statement after THEN or ELSE"
  | loopVariable => "Expected variable name after FOR"
  | loopAssignment => "Expected '=' after FOR variable"
  | loopLimit => "Expected TO after FOR start value"
  | listedVariable => "Expected variable name after comma"
  | signedNumber => "Expected number after sign in DATA statement"
  | dataItem => "Expected number or string in DATA statement"
  | arrayName => "Expected array name"
  | openingDimensions => "Expected '(' after array name"
  | closingDimensions => "Expected ')' after array dimensions"

inductive SyntaxCause where
  /-- No token starts with this character. -/
  | unexpectedCharacter (c : Char)
  | unterminatedString
  /-- No statement or expression goes on with the token described. -/
  | unexpectedToken (description : String)
  | expected (what : Expected)
  /-- A line number has a decimal point. -/
  | lineNumberNotWhole (numeral : String)
  | nestedTooDeep
  /-- A reason given by a caller that reads tokens on its own. -/
  | custom (reason : String)
  deriving DecidableEq, Repr

def SyntaxCause.message : SyntaxCause → String
  | unexpectedCharacter c => "Unexpected character: " ++ c.toString
  | unterminatedString => "Unterminated string"
  | unexpectedToken description => "Unexpected token: " ++ description
  | expected what => what.message
  | lineNumberNotWhole numeral => "Line number must be an integer: " ++ numeral
  | nestedTooDeep => "Expression too deeply nested"
  | custom reason => reason

structure SyntaxError where
  cause : SyntaxCause
  position : Position
  deriving DecidableEq, Repr

/-- Why a program could not be read. -/
inductive ParseFailure where
  | refused (error : SyntaxError)
  /-- A numeral that cannot be converted, such as an overlong line number. -/
  | unreadableNumeral
  deriving DecidableEq, Repr

/-- A syntax error as shown to the user, as far as its place is known. -/
def syntaxReport (message : String) (line column : Option Int) : String :=
  match line, column with
  | none, _ => "SyntaxError: " ++ message
  | some line, none =>
      "SyntaxError: " ++ message ++ "\n  at line " ++ toString line
  | some line, some column =>
      "SyntaxError: " ++ message ++ "\n  at line " ++ toString line ++
        ", column " ++ toString column

def SyntaxError.text (error : SyntaxError) : String :=
  syntaxReport error.cause.message (some error.position.line)
    (some error.position.column)

/-- The form of an error in debugging texts: its class, its message and the
line it is reported for. -/
def errorDebugText (label message : String) (line : Option Int) : String :=
  label ++ "(" ++ Text.quoted message ++ ", line=" ++
    (match line with
      | some line => toString line
      | none => "None") ++ ")"

def SyntaxError.debugText (error : SyntaxError) : String :=
  errorDebugText "ParseError" error.cause.message (some error.position.line)

end NumberedBasic
