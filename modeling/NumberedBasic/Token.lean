/-!
# Tokens

The words, literals and signs that source text consists of.  A token records
where it starts; positions count lines and columns from one.
-/

namespace NumberedBasic

/-- The reserved words. -/
inductive Keyword where
  | printWord
  | letWord
  | gotoWord
  | ifWord
  | thenWord
  | elseWord
  | forWord
  | toWord
  | stepWord
  | nextWord
  | dataWord
  | readWord
  | restoreWord
  | dimWord
  | endWord
  | remWord
  | andWord
  | orWord
  | notWord
  deriving DecidableEq, Repr

def Keyword.all : List Keyword :=
  [.printWord, .letWord, .gotoWord, .ifWord, .thenWord, .elseWord, .forWord,
   .toWord, .stepWord, .nextWord, .dataWord, .readWord, .restoreWord, .dimWord,
   .endWord, .remWord, .andWord, .orWord, .notWord]

def Keyword.spelling : Keyword → String
  | printWord => "PRINT"
  | letWord => "LET"
  | gotoWord => "GOTO"
  | ifWord => "IF"
  | thenWord => "THEN"
  | elseWord => "ELSE"
  | forWord => "FOR"
  | toWord => "TO"
  | stepWord => "STEP"
  | nextWord => "NEXT"
  | dataWord => "DATA"
  | readWord => "READ"
  | restoreWord => "RESTORE"
  | dimWord => "DIM"
  | endWord => "END"
  | remWord => "REM"
  | andWord => "AND"
  | orWord => "OR"
  | notWord => "NOT"

def Keyword.ofSpelling? (word : String) : Option Keyword :=
  all.find? fun keyword => keyword.spelling = word

theorem Keyword.ofSpelling?_spelling (keyword : Keyword) :
    ofSpelling? keyword.spelling = some keyword := by
  cases keyword <;> rfl

/-- Operators and punctuation. -/
inductive Sign where
  | plus
  | minus
  | times
  | divide
  | caret
  | equal
  | notEqual
  | less
  | greater
  | lessEqual
  | greaterEqual
  | comma
  | semicolon
  | leftParen
  | rightParen
  | leftBracket
  | rightBracket
  deriving DecidableEq, Repr

def Sign.all : List Sign :=
  [.plus, .minus, .times, .divide, .caret, .equal, .notEqual, .less, .greater,
   .lessEqual, .greaterEqual, .comma, .semicolon, .leftParen, .rightParen,
   .leftBracket, .rightBracket]

/-- The canonical spelling; other spellings of a sign are replaced by it. -/
def Sign.spelling : Sign → String
  | plus => "+"
  | minus => "-"
  | times => "*"
  | divide => "/"
  | caret => "^"
  | equal => "="
  | notEqual => "<>"
  | less => "<"
  | greater => ">"
  | lessEqual => "<="
  | greaterEqual => ">="
  | comma => ","
  | semicolon => ";"
  | leftParen => "("
  | rightParen => ")"
  | leftBracket => "["
  | rightBracket => "]"

def Sign.name : Sign → String
  | plus => "PLUS"
  | minus => "MINUS"
  | times => "MULTIPLY"
  | divide => "DIVIDE"
  | caret => "POWER"
  | equal => "EQUAL"
  | notEqual => "NOT_EQUAL"
  | less => "LESS"
  | greater => "GREATER"
  | lessEqual => "LESS_EQUAL"
  | greaterEqual => "GREATER_EQUAL"
  | comma => "COMMA"
  | semicolon => "SEMICOLON"
  | leftParen => "LEFT_PAREN"
  | rightParen => "RIGHT_PAREN"
  | leftBracket => "LEFT_BRACKET"
  | rightBracket => "RIGHT_BRACKET"

inductive TokenKind where
  | number
  | string
  | identifier
  | keyword (word : Keyword)
  | sign (sign : Sign)
  | newline
  | endOfInput
  deriving DecidableEq, Repr

namespace TokenKind

def all : List TokenKind :=
  [number, string, identifier, newline, endOfInput] ++
    Keyword.all.map keyword ++ Sign.all.map sign

/-- The name under which a kind of token is listed. -/
def name : TokenKind → String
  | number => "NUMBER"
  | string => "STRING"
  | identifier => "IDENTIFIER"
  | keyword word => word.spelling
  | sign s => s.name
  | newline => "NEWLINE"
  | endOfInput => "EOF"

def ofName? (name : String) : Option TokenKind :=
  all.find? fun kind => kind.name = name

/-- What ends a statement. -/
def endsStatement (kind : TokenKind) : Bool :=
  kind = newline || kind = endOfInput

/-- What ends a statement inside a branch of an IF. -/
def endsBranch (kind : TokenKind) : Bool :=
  kind.endsStatement || kind = keyword .elseWord

end TokenKind

/-- A place in a source text. -/
structure Position where
  line : Nat
  column : Nat
  deriving DecidableEq, Repr

/-- Where a source text starts. -/
def Position.start : Position := ⟨1, 1⟩

/-- The position after one more character. -/
def Position.step (position : Position) (c : Char) : Position :=
  if c = '\n' then ⟨position.line + 1, 1⟩
  else ⟨position.line, position.column + 1⟩

/-- The position after some more text. -/
def Position.after (position : Position) (text : List Char) : Position :=
  text.foldl Position.step position

theorem Position.after_append (position : Position) (front back : List Char) :
    position.after (front ++ back) = (position.after front).after back :=
  List.foldl_append

structure Token where
  kind : TokenKind
  /-- The digits, the word in upper case, the canonical sign, or the text
  between quotes. -/
  text : String
  position : Position
  deriving DecidableEq, Repr

/-- A token as messages show it. -/
def Token.describe (token : Token) : String :=
  match token.kind with
  | .endOfInput => "end of input"
  | .newline => "end of line"
  | .string => "\"" ++ token.text ++ "\""
  | _ => token.text

end NumberedBasic
