import NumberedBasic.SyntaxError
import NumberedBasic.Text.Blank

/-!
# From source text to tokens

Reading one token takes a nonempty piece off the front of the text; reading
all of them skips spaces, tabs and carriage returns in between.  The words of
the language are ASCII and are turned to upper case.  A REM takes the rest of
its line with it, as a string token if anything is left of it.
-/

namespace NumberedBasic

namespace Lexer

/-- Skipped between tokens; a line feed is a token. -/
def isGap (c : Char) : Bool := c = ' ' || c = '\t' || c = '\r'

def isNameStart (c : Char) : Bool := c.isAlpha || c = '_'

def isNameChar (c : Char) : Bool := c.isAlphanum || c = '_'

/-- What one token takes from the text: its kind, its text, the characters
it was written with, and what is left. -/
structure Lexeme where
  kind : TokenKind
  text : String
  written : List Char
  rest : List Char
  deriving DecidableEq, Repr

/-- A numeral from its first digit on.  A point belongs to it only if another
digit follows. -/
def scanNumber (first : Char) (after : List Char) : Lexeme :=
  let whole := first :: after.takeWhile Char.isDigit
  match after.dropWhile Char.isDigit with
  | '.' :: digit :: more =>
      if digit.isDigit then
        let fraction := digit :: more.takeWhile Char.isDigit
        let written := whole ++ '.' :: fraction
        ⟨.number, String.ofList written, written, more.dropWhile Char.isDigit⟩
      else ⟨.number, String.ofList whole, whole, '.' :: digit :: more⟩
  | rest => ⟨.number, String.ofList whole, whole, rest⟩

/-- A string from after its opening quote on; it may span lines. -/
def scanString (after : List Char) : Except SyntaxCause Lexeme :=
  let content := after.takeWhile (· ≠ '"')
  match after.dropWhile (· ≠ '"') with
  | [] => .error .unterminatedString
  | quote :: rest =>
      .ok ⟨.string, String.ofList content, '"' :: content ++ [quote], rest⟩

def wordKind (word : String) : TokenKind :=
  match Keyword.ofSpelling? word with
  | some keyword => .keyword keyword
  | none => .identifier

/-- A word from its first letter on, with the dollar sign that may end it. -/
def scanWord (first : Char) (after : List Char) : Lexeme :=
  let stem := first :: after.takeWhile isNameChar
  let (written, rest) :=
    match after.dropWhile isNameChar with
    | '$' :: rest => (stem ++ ['$'], rest)
    | rest => (stem, rest)
  let word := String.ofList (written.map Char.toUpper)
  ⟨wordKind word, word, written, rest⟩

/-- The signs written with two characters, in all their spellings. -/
def doubleSign? : Char → Char → Option Sign
  | '*', '*' => some .caret
  | '<', '=' => some .lessEqual
  | '>', '=' => some .greaterEqual
  | '<', '>' => some .notEqual
  | '!', '=' => some .notEqual
  | _, _ => none

def singleSign? : Char → Option Sign
  | '+' => some .plus
  | '-' => some .minus
  | '*' => some .times
  | '/' => some .divide
  | '^' => some .caret
  | '=' => some .equal
  | '<' => some .less
  | '>' => some .greater
  | ',' => some .comma
  | ';' => some .semicolon
  | '(' => some .leftParen
  | ')' => some .rightParen
  | '[' => some .leftBracket
  | ']' => some .rightBracket
  | _ => none

def scanSingle (first : Char) (after : List Char) :
    Except SyntaxCause Lexeme :=
  match singleSign? first with
  | some sign => .ok ⟨.sign sign, sign.spelling, [first], after⟩
  | none => .error (.unexpectedCharacter first)

/-- The longer of the signs that start here. -/
def scanSign (first : Char) : List Char → Except SyntaxCause Lexeme
  | [] => scanSingle first []
  | second :: rest =>
      match doubleSign? first second with
      | some sign => .ok ⟨.sign sign, sign.spelling, [first, second], rest⟩
      | none => scanSingle first (second :: rest)

/-- The token at the front of a nonempty text. -/
def scan (first : Char) (after : List Char) : Except SyntaxCause Lexeme :=
  if first = '\n' then .ok ⟨.newline, "\n", ['\n'], after⟩
  else if first.isDigit then .ok (scanNumber first after)
  else if first = '"' then scanString after
  else if isNameStart first then .ok (scanWord first after)
  else scanSign first after

/-- The text still to be read, and where it starts. -/
structure Source where
  position : Position
  text : List Char
  deriving DecidableEq, Repr

def Source.ofString (text : String) : Source := ⟨.start, text.toList⟩

def Source.skipGap (source : Source) : Source :=
  ⟨source.position.after (source.text.takeWhile isGap),
    source.text.dropWhile isGap⟩

/-- The comment after a REM, if anything is left of it, and the text from the
end of its line on. -/
def comment (source : Source) : List Token × Source :=
  let source := source.skipGap
  let line := source.text.takeWhile (· ≠ '\n')
  let remark := Text.trimRight line
  let rest : Source :=
    ⟨source.position.after line, source.text.dropWhile (· ≠ '\n')⟩
  if remark.isEmpty then ([], rest)
  else ([⟨.string, String.ofList remark, source.position⟩], rest)

/-- The tokens read in one go, which are one token or a REM with its
comment; nothing at the end of the text. -/
def next (source : Source) :
    Except SyntaxError (Option (List Token × Source)) :=
  match source.text with
  | [] => .ok none
  | first :: after =>
      match scan first after with
      | .error cause => .error ⟨cause, source.position⟩
      | .ok lexeme =>
          let token : Token := ⟨lexeme.kind, lexeme.text, source.position⟩
          let rest : Source :=
            ⟨source.position.after lexeme.written, lexeme.rest⟩
          if lexeme.kind = .keyword .remWord then
            let (remark, rest) := comment rest
            .ok (some (token :: remark, rest))
          else .ok (some ([token], rest))

/-- Reads on until the end of the text; `found` holds the tokens read before,
latest first.  Each round shortens the text, so that its length bounds the
number of rounds. -/
def readAll : (rounds : Nat) → Source → (found : List Token) →
    Except SyntaxError (List Token)
  | 0, source, found =>
      .ok (⟨.endOfInput, "", source.position⟩ :: found).reverse
  | rounds + 1, source, found =>
      let source := source.skipGap
      match next source with
      | .error error => .error error
      | .ok none => .ok (⟨.endOfInput, "", source.position⟩ :: found).reverse
      | .ok (some (tokens, rest)) =>
          readAll rounds rest (tokens.reverse ++ found)

end Lexer

/-- The tokens of a source text, the last of which marks its end. -/
def tokenise (text : String) : Except SyntaxError (List Token) :=
  let source := Lexer.Source.ofString text
  Lexer.readAll (source.text.length + 1) source []

end NumberedBasic
