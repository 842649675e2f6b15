import NumberedBasic.SyntaxError

/-!
# Reading tokens in order

A cursor holds the tokens still to be read, up to the token that marks the
end of input.  That last token can be looked at and read any number of times
but is never passed.
-/

namespace NumberedBasic

structure Cursor where
  rest : List Token
  final : Token
  deriving DecidableEq, Repr

namespace Cursor

/-- A cursor on a list of tokens that ends with an end mark.  What follows
the first end mark can never be reached. -/
def ofTokens? (tokens : List Token) : Option Cursor :=
  if tokens.getLast?.map Token.kind = some .endOfInput then
    (tokens.find? (·.kind = .endOfInput)).map fun final =>
      ⟨tokens.takeWhile (·.kind ≠ .endOfInput), final⟩
  else none

/-- The next token. -/
def peek (cursor : Cursor) : Token := cursor.rest.headD cursor.final

/-- Past the next token, except at the end of input. -/
def skip (cursor : Cursor) : Cursor := { cursor with rest := cursor.rest.tail }

def atEnd (cursor : Cursor) : Bool := cursor.peek.kind = .endOfInput

/-- The next token is of one of the given kinds. -/
def check (cursor : Cursor) (kinds : List TokenKind) : Bool :=
  kinds.contains cursor.peek.kind

/-- A syntax error at the next token. -/
def errorHere (cursor : Cursor) (cause : SyntaxCause) : SyntaxError :=
  ⟨cause, cursor.peek.position⟩

/-- Reads the next token if it is of one of the given kinds. -/
def readIf (cursor : Cursor) (kinds : List TokenKind) :
    Option Token × Cursor :=
  if cursor.check kinds then (some cursor.peek, cursor.skip)
  else (none, cursor)

/-- Reads the next token, which must be of one of the given kinds. -/
def demand (cursor : Cursor) (kinds : List TokenKind) (cause : SyntaxCause) :
    Except SyntaxError (Token × Cursor) :=
  if cursor.check kinds then .ok (cursor.peek, cursor.skip)
  else .error (cursor.errorHere cause)

def unexpected (cursor : Cursor) : SyntaxError :=
  cursor.errorHere (.unexpectedToken cursor.peek.describe)

/-- The next token must be of one of the given kinds; it is not read. -/
def demandAhead (cursor : Cursor) (kinds : List TokenKind) :
    Except SyntaxError Unit :=
  if cursor.check kinds then .ok () else .error cursor.unexpected

end Cursor

/-! ## Parsers -/

/-- Reads tokens and answers with a result, or refuses the program. -/
abbrev Parser := StateT Cursor (Except ParseFailure)

namespace Parser

def peek : Parser Token := return (← get).peek

/-- As many rounds as there are tokens left. -/
def remaining : Parser Nat := return (← get).rest.length

def refuse {α : Type} (cause : SyntaxCause) : Parser α := do
  throw (.refused ((← get).errorHere cause))

def unexpected {α : Type} : Parser α := do
  throw (.refused (← get).unexpected)

/-- Reads the next token if its kind has a meaning here, and answers with
that meaning. -/
def accept {α : Type} (meaning? : TokenKind → Option α) :
    Parser (Option α) := do
  match meaning? (← peek).kind with
  | some meaning => modify Cursor.skip; return some meaning
  | none => return none

/-- Reads the next token if it is of the given kind. -/
def acceptKind (kind : TokenKind) : Parser Bool := do
  if (← peek).kind = kind then modify Cursor.skip; return true
  else return false

/-- Reads the next token if it is of one of the given kinds. -/
def acceptAny (kinds : List TokenKind) : Parser (Option Token) := do
  let token ← peek
  if kinds.contains token.kind then modify Cursor.skip; return some token
  else return none

/-- Reads the next token if it is a numeral. -/
def acceptNumeral : Parser (Option Token) := acceptAny [.number]

/-- Reads the next token, which must be of one of the given kinds. -/
def demand (kinds : List TokenKind) (what : Expected) : Parser Token := do
  let token ← peek
  if kinds.contains token.kind then modify Cursor.skip; return token
  else refuse (.expected what)

/-- One item, and further items as long as a comma follows.  The number of
tokens left bounds the number of items. -/
def commaRest {α : Type} (item : Parser α) : (rounds : Nat) →
    Parser (List α)
  | 0 => return []
  | rounds + 1 => do
      if ← acceptKind (.sign .comma) then
        let head ← item
        return head :: (← commaRest item rounds)
      else return []

def commaList {α : Type} (first next : Parser α) : Parser (List α) := do
  let head ← first
  return head :: (← commaRest next (← remaining))

end Parser

end NumberedBasic
