import NumberedBasic.Expr.Parser
import NumberedBasic.Host
import NumberedBasic.Statement
import NumberedBasic.Text.Digit
import NumberedBasic.Token.Lexer

/-!
# Reading statements and programs

A program is a sequence of lines; a line is an optional number, a statement
and the end of the line.  A name at the start of a statement is an assignment
without LET, and a numeral in the place of a branch is a jump.

A statement counts as three rules: itself, its form, and the step from there to
an expression or a branch.  What a form reads without that step, a place or a
list of bounds, has one rule more.
-/

namespace NumberedBasic

variable [Host]

namespace Parser

/-- The line number that a numeral stands for; a complaint about it points to
the token after it. -/
def lineNumber (token : Token) : Parser Int :=
  let digits := token.text.toList
  if digits.isEmpty || !digits.all Text.isDigitSign then
    refuse (.lineNumberNotWhole token.text)
  else if !digits.all Text.isDigit then throw .unreadableNumeral
  else
    match Text.wholeNumber? digits with
    | some number => return number
    | none => throw .unreadableNumeral

/-- What follows the first item of a PRINT: separators, the items after them,
and a separator with nothing after it. -/
def printRest (item : Parser Expr) : (rounds : Nat) →
    Parser (List Separator × List Expr × Option Separator)
  | 0 => return ([], [], none)
  | rounds + 1 => do
      match ← accept separator? with
      | none => return ([], [], none)
      | some separator =>
          if (← peek).kind.endsBranch then return ([], [], some separator)
          else
            let head ← item
            let (separators, items, ending) ← printRest item rounds
            return (separator :: separators, head :: items, ending)
where
  separator? : TokenKind → Option Separator
    | .sign .comma => some .comma
    | .sign .semicolon => some .semicolon
    | _ => none

def printStatement (depth : Nat) : Parser Statement := do
  if (← peek).kind.endsBranch then return .print [] [] none
  else
    let head ← expression depth
    let (separators, items, ending) ←
      printRest (expression depth) (← remaining)
    return .print (head :: items) separators ending

def assignment (depth : Nat) : Parser Statement := do
  let target ← place (depth + 1)
  let _ ← demand [.sign .equal] .assignment
  return .assign target (← expression depth)

def jump : Parser Statement := do
  let token ← demand [.number] .jumpTarget
  return .goto (some (← lineNumber token))

def loop (depth : Nat) : Parser Statement := do
  let name := (← demand [.identifier] .loopVariable).text
  let _ ← demand [.sign .equal] .loopAssignment
  let start ← expression depth
  let _ ← demand [.keyword .toWord] .loopLimit
  let stop ← expression depth
  if ← acceptKind (.keyword .stepWord) then
    return .forLoop name start stop (some (← expression depth))
  else return .forLoop name start stop none

def loopEnd : Parser Statement := do
  if (← peek).kind = .identifier then
    return .next (← commaList (name .loopVariable) (name .listedVariable))
  else return .next []
where
  name (what : Expected) : Parser String :=
    return (← demand [.identifier] what).text

/-- A string, or a numeral that may have a sign. -/
def dataItem : Parser Value := do
  match ← accept sign? with
  | some negative =>
      let x ← number (← demand [.number] .signedNumber)
      return .number (if negative then -x else x)
  | none =>
      let token ← demand [.number, .string] .dataItem
      if token.kind = .string then return .text token.text
      else return .number (← number token)
where
  sign? : TokenKind → Option Bool
    | .sign .minus => some true
    | .sign .plus => some false
    | _ => none
  number (token : Token) : Parser Float :=
    match Decimal.entireNumber? token.text.toList with
    | some x => return x
    | none => throw .unreadableNumeral

def restoration : Parser Statement := do
  match ← acceptNumeral with
  | some token => return .restore (some (← lineNumber token))
  | none => return .restore none

/-- One array of a DIM; any opening bracket goes with any closing one. -/
def declaration (depth : Nat) : Parser Declaration := do
  let name := (← demand [.identifier] .arrayName).text
  let _ ← demand [.sign .leftParen, .sign .leftBracket] .openingDimensions
  let bounds ← expressionList (depth + 1)
  let _ ← demand [.sign .rightParen, .sign .rightBracket] .closingDimensions
  return ⟨name, bounds⟩

def remark : Parser Statement := do
  let token ← peek
  if token.kind = .string then modify Cursor.skip; return .remark token.text
  else return .remark ""

/-- A statement that is no IF, from after its first word on. -/
def simpleStatement (depth : Nat) : Keyword → Parser Statement
  | .printWord => printStatement depth
  | .letWord => assignment depth
  | .gotoWord => jump
  | .forWord => loop depth
  | .nextWord => loopEnd
  | .dataWord => return .data (← commaList dataItem dataItem)
  | .readWord =>
      return .read (← commaList (place (depth + 1)) (place (depth + 1)))
  | .restoreWord => restoration
  | .dimWord =>
      return .dim (← commaList (declaration depth) (declaration depth))
  | .endWord => return .stop
  | .remWord => remark
  | _ => unexpected

/-- The words that start a statement which is no IF. -/
def startsSimple : Keyword → Bool
  | .printWord | .letWord | .gotoWord | .forWord | .nextWord | .dataWord
  | .readWord | .restoreWord | .dimWord | .endWord | .remWord => true
  | _ => false

/-- A branch of an IF: a numeral is a jump to that line. -/
def branch (inner : Parser Statement) : Parser Statement := do
  match ← acceptNumeral with
  | some token => return .goto (some (← lineNumber token))
  | none =>
      if (← peek).kind.endsBranch then refuse (.expected .branchStatement)
      else inner

/-- A statement.  An ELSE goes with the nearest IF that has none. -/
def statement : (depth : Nat) → Parser Statement
  | depth + 3 => do
      match (← peek).kind with
      | .keyword .ifWord =>
          modify Cursor.skip
          let condition ← expression depth
          let _ ← demand [.keyword .thenWord] .thenWord
          let thenBranch ← branch (statement depth)
          if ← acceptKind (.keyword .elseWord) then
            return .ifElse condition thenBranch (← branch (statement depth))
          else return .ifThen condition thenBranch
      | .keyword word =>
          if startsSimple word then
            modify Cursor.skip
            simpleStatement depth word
          else unexpected
      | .identifier => assignment depth
      | _ => unexpected
  | _ => refuse .nestedTooDeep

/-- A statement with its number and the end of its line. -/
def line : Parser Line := do
  let number ←
    match ← acceptNumeral with
    | some token => pure (some (← lineNumber token))
    | none => pure none
  let body ← statement Host.nesting
  if (← peek).kind.endsStatement then
    let _ ← acceptKind .newline
    return ⟨number, body⟩
  else unexpected

/-- The lines up to the end of input, blank ones skipped; `found` holds those
read before, latest first.  Every round reads a token at least. -/
def lines : (rounds : Nat) → (found : List Line) → Parser Program
  | 0, found => return found.reverse
  | rounds + 1, found => do
      if (← get).atEnd then return found.reverse
      else if ← acceptKind .newline then lines rounds found
      else lines rounds ((← line) :: found)

def program : Parser Program := do lines ((← remaining) + 1) []

end Parser

/-- The program that the tokens from the cursor on spell. -/
def Cursor.program (cursor : Cursor) : Except ParseFailure Program :=
  (Parser.program.run cursor).map (·.1)

/-- The program that a list of tokens spells, if the list ends with an end
mark. -/
def Program.ofTokens? (tokens : List Token) :
    Option (Except ParseFailure Program) :=
  (Cursor.ofTokens? tokens).map Cursor.program

/-- The program that a source text spells. -/
def Program.parse (source : String) : Except ParseFailure Program :=
  match tokenise source with
  | .error error => .error (.refused error)
  | .ok tokens =>
      match Program.ofTokens? tokens with
      | some result => result
      | none => .ok []

end NumberedBasic
