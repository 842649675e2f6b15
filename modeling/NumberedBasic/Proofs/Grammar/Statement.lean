import NumberedBasic.Proofs.Grammar.Expression
import NumberedBasic.Statement
import NumberedBasic.Text.Digit

/-!
# The grammar of programs

Which lists of tokens derive which statements.  A program is made of lines
with a line feed after each, which the last one may lack; a line is a
statement, or the branches of an IF are, and an ELSE goes with the nearest IF
before it that has none.

The depth of a part of a statement is that of the expressions in it; a place or
a list of bounds that stands there itself has one more, and a statement three.
-/

namespace NumberedBasic

/-- The token is the line number: a numeral of decimal digits only, and not
too long to be converted. -/
structure Token.IsLineNumber (token : Token) (number : Int) : Prop where
  kind : token.kind = .number
  nonempty : token.text.toList ≠ []
  digits : ∀ c ∈ token.text.toList, Text.isDigit c = true
  short : token.text.toList.length ≤ Text.longestNumeral
  value : number = Text.numeralValue token.text.toList

namespace TokenKind

def closesBracket : TokenKind → Bool
  | sign .rightParen | sign .rightBracket => true
  | _ => false

/-- A mark between the items of a PRINT or after them. -/
inductive Separates : TokenKind → Separator → Prop where
  | comma : Separates (sign .comma) .comma
  | semicolon : Separates (sign .semicolon) .semicolon

end TokenKind

/-! ## Parts of statements -/

/-- What follows the first item of a PRINT: further items, with a separator
before each, and maybe a separator after the last. -/
inductive PrintRest (depth : Nat) : List Token → List Separator → List Expr →
    Option Separator → Prop where
  | nothing : PrintRest depth [] [] [] none
  | ending {mark : Token} {separator : Separator}
      (hmark : mark.kind.Separates separator) :
      PrintRest depth [mark] [] [] (some separator)
  | further {front back : List Token} {mark : Token} {separator : Separator}
      {separators : List Separator} {expr : Expr} {exprs : List Expr}
      {ending? : Option Separator} (hmark : mark.kind.Separates separator)
      (hexpr : Rule.expression.Derives depth front expr)
      (hothers : PrintRest depth back separators exprs ending?) :
      PrintRest depth (mark :: (front ++ back)) (separator :: separators)
        (expr :: exprs) ending?

theorem PrintRest.mono {depth deeper : Nat} {tokens : List Token}
    {separators : List Separator} {exprs : List Expr} {ending? : Option Separator}
    (hrest : PrintRest depth tokens separators exprs ending?)
    (hdepth : depth ≤ deeper) :
    PrintRest deeper tokens separators exprs ending? := by
  induction hrest with
  | nothing => exact .nothing
  | ending hmark => exact .ending hmark
  | further hmark hexpr _ ih => exact .further hmark (hexpr.mono hdepth) ih

/-- Every further item has a separator before it. -/
theorem PrintRest.length {depth : Nat} {tokens : List Token}
    {separators : List Separator} {exprs : List Expr} {ending? : Option Separator}
    (hrest : PrintRest depth tokens separators exprs ending?) :
    separators.length = exprs.length := by
  induction hrest with
  | nothing | ending => rfl
  | further _ _ _ ih => exact congrArg Nat.succ ih

inductive IsName : List Token → String → Prop where
  | intro {name : Token} (hname : name.kind = .identifier) :
      IsName [name] name.text

/-- An item of a DATA: a string, or a numeral that may have a sign. -/
inductive DataItem : List Token → Value → Prop where
  | text {quoted : Token} (hquoted : quoted.kind = .string) :
      DataItem [quoted] (.text quoted.text)
  | unsigned {numeral : Token} {x : Float} (hnumeral : numeral.kind = .number)
      (hx : Decimal.entireNumber? numeral.text.toList = some x) :
      DataItem [numeral] (.number x)
  | plus {sign numeral : Token} {x : Float} (hsign : sign.kind = .sign .plus)
      (hnumeral : numeral.kind = .number)
      (hx : Decimal.entireNumber? numeral.text.toList = some x) :
      DataItem [sign, numeral] (.number x)
  | minus {sign numeral : Token} {x : Float} (hsign : sign.kind = .sign .minus)
      (hnumeral : numeral.kind = .number)
      (hx : Decimal.entireNumber? numeral.text.toList = some x) :
      DataItem [sign, numeral] (.number (-x))

/-- An array of a DIM; the brackets need not match. -/
inductive Declares (depth : Nat) : List Token → Declaration → Prop where
  | intro {name opening closing : Token} {tokens : List Token}
      {bounds : List Expr} (hname : name.kind = .identifier)
      (hopening : opening.kind.opensBracket = true)
      (hbounds : Rule.listed.Derives (depth + 1) tokens bounds)
      (hclosing : closing.kind.closesBracket = true) :
      Declares depth (name :: opening :: (tokens ++ [closing]))
        ⟨name.text, bounds⟩

theorem Declares.mono {depth deeper : Nat} {tokens : List Token}
    {array : Declaration} (harray : Declares depth tokens array)
    (hdepth : depth ≤ deeper) : Declares deeper tokens array := by
  cases harray with
  | intro hname hopening hbounds hclosing =>
      exact .intro hname hopening (hbounds.mono (Nat.succ_le_succ hdepth)) hclosing

inductive Assigns (depth : Nat) : List Token → Statement → Prop where
  | intro {front back : List Token} {equal : Token} {target : Place}
      {value : Expr} (htarget : Rule.place.Derives (depth + 1) front target)
      (hequal : equal.kind = .sign .equal)
      (hvalue : Rule.expression.Derives depth back value) :
      Assigns depth (front ++ equal :: back) (.assign target value)

theorem Assigns.mono {depth deeper : Nat} {tokens : List Token}
    {statement : Statement} (hassigns : Assigns depth tokens statement)
    (hdepth : depth ≤ deeper) : Assigns deeper tokens statement := by
  cases hassigns with
  | intro htarget hequal hvalue =>
      exact .intro (htarget.mono (Nat.succ_le_succ hdepth)) hequal
        (hvalue.mono hdepth)

/-! ## Statements -/

/-- A statement that is no IF, from after its first word on. -/
inductive Keyword.Heads (depth : Nat) : Keyword → List Token → Statement →
    Prop where
  | printNothing : Heads depth .printWord [] (.print [] [] none)
  | print {front back : List Token} {expr : Expr} {exprs : List Expr}
      {separators : List Separator} {ending? : Option Separator}
      (hexpr : Rule.expression.Derives depth front expr)
      (hrest : PrintRest depth back separators exprs ending?) :
      Heads depth .printWord (front ++ back)
        (.print (expr :: exprs) separators ending?)
  | assign {tokens : List Token} {statement : Statement}
      (hassigns : Assigns depth tokens statement) :
      Heads depth .letWord tokens statement
  | goto {numeral : Token} {number : Int}
      (hnumber : numeral.IsLineNumber number) :
      Heads depth .gotoWord [numeral] (.goto (some number))
  | forLoop {name equal toToken : Token} {front back : List Token}
      {start limit : Expr} (hname : name.kind = .identifier)
      (hequal : equal.kind = .sign .equal)
      (hstart : Rule.expression.Derives depth front start)
      (hto : toToken.kind = .keyword .toWord)
      (hlimit : Rule.expression.Derives depth back limit) :
      Heads depth .forWord (name :: equal :: (front ++ toToken :: back))
        (.forLoop name.text start limit none)
  | forStep {name equal toToken stepToken : Token}
      {front middle back : List Token} {start limit step : Expr}
      (hname : name.kind = .identifier)
      (hequal : equal.kind = .sign .equal)
      (hstart : Rule.expression.Derives depth front start)
      (hto : toToken.kind = .keyword .toWord)
      (hlimit : Rule.expression.Derives depth middle limit)
      (hby : stepToken.kind = .keyword .stepWord)
      (hstep : Rule.expression.Derives depth back step) :
      Heads depth .forWord
        (name :: equal :: (front ++ toToken :: (middle ++ stepToken :: back)))
        (.forLoop name.text start limit (some step))
  | nextLatest : Heads depth .nextWord [] (.next [])
  | next {tokens : List Token} {names : List String}
      (hnames : Separated IsName tokens names) :
      Heads depth .nextWord tokens (.next names)
  | data {tokens : List Token} {values : List Value}
      (hvalues : Separated DataItem tokens values) :
      Heads depth .dataWord tokens (.data values)
  | read {tokens : List Token} {targets : List Place}
      (htargets : Separated (Rule.place.Derives (depth + 1)) tokens targets) :
      Heads depth .readWord tokens (.read targets)
  | restoreAll : Heads depth .restoreWord [] (.restore none)
  | restore {numeral : Token} {number : Int}
      (hnumber : numeral.IsLineNumber number) :
      Heads depth .restoreWord [numeral] (.restore (some number))
  | dim {tokens : List Token} {arrays : List Declaration}
      (harrays : Separated (Declares depth) tokens arrays) :
      Heads depth .dimWord tokens (.dim arrays)
  | stop : Heads depth .endWord [] .stop
  | remarkNothing : Heads depth .remWord [] (.remark "")
  | remark {comment : Token} (hcomment : comment.kind = .string) :
      Heads depth .remWord [comment] (.remark comment.text)

theorem Keyword.Heads.mono {depth deeper : Nat} {word : Keyword}
    {tokens : List Token} {body : Statement} (hbody : word.Heads depth tokens body)
    (hdepth : depth ≤ deeper) : word.Heads deeper tokens body := by
  cases hbody with
  | printNothing => exact .printNothing
  | print hexpr hrest => exact .print (hexpr.mono hdepth) (hrest.mono hdepth)
  | assign hassigns => exact .assign (hassigns.mono hdepth)
  | goto hnumber => exact .goto hnumber
  | forLoop hname hequal hstart hto hlimit =>
      exact .forLoop hname hequal (hstart.mono hdepth) hto (hlimit.mono hdepth)
  | forStep hname hequal hstart hto hlimit hby hstep =>
      exact .forStep hname hequal (hstart.mono hdepth) hto (hlimit.mono hdepth) hby
        (hstep.mono hdepth)
  | nextLatest => exact .nextLatest
  | next hnames => exact .next hnames
  | data hvalues => exact .data hvalues
  | read htargets =>
      exact .read (htargets.imp fun _ _ htarget =>
        htarget.mono (Nat.succ_le_succ hdepth))
  | restoreAll => exact .restoreAll
  | restore hnumber => exact .restore hnumber
  | dim harrays => exact .dim (harrays.imp fun _ _ harray => harray.mono hdepth)
  | stop => exact .stop
  | remarkNothing => exact .remarkNothing
  | remark hcomment => exact .remark hcomment

/-- An IF without ELSE is at the end, and would take an ELSE after it. -/
def Statement.awaitsElse : Statement → Bool
  | .ifThen _ _ => true
  | .ifElse _ _ otherwise => otherwise.awaitsElse
  | _ => false

/-- A statement, or what can stand in its place as a branch of an IF. -/
inductive Phrase where
  | statement
  | branch

/-- The tokens derive the statement. -/
inductive Phrase.Derives : Phrase → (depth : Nat) → List Token → Statement →
    Prop where
  | headed {depth : Nat} {word : Keyword} {first : Token} {tokens : List Token}
      {body : Statement} (hfirst : first.kind = .keyword word)
      (hbody : word.Heads depth tokens body) :
      Derives statement (depth + 3) (first :: tokens) body
  | assign {depth : Nat} {tokens : List Token} {body : Statement}
      (hassigns : Assigns depth tokens body) :
      Derives statement (depth + 3) tokens body
  | ifThen {depth : Nat} {first thenToken : Token} {front back : List Token}
      {condition : Expr} {accepted : Statement}
      (hfirst : first.kind = .keyword .ifWord)
      (hcondition : Rule.expression.Derives depth front condition)
      (hthen : thenToken.kind = .keyword .thenWord)
      (haccepted : Derives branch depth back accepted) :
      Derives statement (depth + 3) (first :: (front ++ thenToken :: back))
        (.ifThen condition accepted)
  | ifElse {depth : Nat} {first thenToken elseToken : Token}
      {front middle back : List Token} {condition : Expr}
      {accepted otherwise : Statement}
      (hfirst : first.kind = .keyword .ifWord)
      (hcondition : Rule.expression.Derives depth front condition)
      (hthen : thenToken.kind = .keyword .thenWord)
      (haccepted : Derives branch depth middle accepted)
      (hclosed : accepted.awaitsElse = false)
      (helse : elseToken.kind = .keyword .elseWord)
      (hotherwise : Derives branch depth back otherwise) :
      Derives statement (depth + 3)
        (first :: (front ++ thenToken :: (middle ++ elseToken :: back)))
        (.ifElse condition accepted otherwise)
  | jump {depth : Nat} {numeral : Token} {number : Int}
      (hnumber : numeral.IsLineNumber number) :
      Derives branch depth [numeral] (.goto (some number))
  | nested {depth : Nat} {tokens : List Token} {body : Statement}
      (hbody : Derives statement depth tokens body) :
      Derives branch depth tokens body

theorem Phrase.Derives.mono {phrase : Phrase} {depth deeper : Nat}
    {tokens : List Token} {body : Statement}
    (hbody : phrase.Derives depth tokens body) (hdepth : depth ≤ deeper) :
    phrase.Derives deeper tokens body := by
  have hroom {inner deeper : Nat} (hdepth : inner + 3 ≤ deeper) :
      ∃ room, inner ≤ room ∧ deeper = room + 3 :=
    ⟨deeper - 3, by omega, by omega⟩
  induction hbody generalizing deeper with
  | headed hfirst hbody =>
      obtain ⟨room, hinner, rfl⟩ := hroom hdepth
      exact .headed hfirst (hbody.mono hinner)
  | assign hassigns =>
      obtain ⟨room, hinner, rfl⟩ := hroom hdepth
      exact .assign (hassigns.mono hinner)
  | ifThen hfirst hcondition hthen _ ih =>
      obtain ⟨room, hinner, rfl⟩ := hroom hdepth
      exact .ifThen hfirst (hcondition.mono hinner) hthen (ih hinner)
  | ifElse hfirst hcondition hthen _ hclosed helse _ ihAccepted ihOtherwise =>
      obtain ⟨room, hinner, rfl⟩ := hroom hdepth
      exact .ifElse hfirst (hcondition.mono hinner) hthen (ihAccepted hinner)
        hclosed helse (ihOtherwise hinner)
  | jump hnumber => exact .jump hnumber
  | nested _ ih => exact .nested (ih hdepth)

/-! ## Programs -/

inductive Line.Derives (depth : Nat) : List Token → Line → Prop where
  | numbered {numeral : Token} {number : Int} {tokens : List Token}
      {body : Statement} (hnumber : numeral.IsLineNumber number)
      (hbody : Phrase.statement.Derives depth tokens body) :
      Derives depth (numeral :: tokens) ⟨some number, body⟩
  | unnumbered {tokens : List Token} {body : Statement}
      (hbody : Phrase.statement.Derives depth tokens body) :
      Derives depth tokens ⟨none, body⟩

theorem Line.Derives.mono {depth deeper : Nat} {tokens : List Token} {line : Line}
    (hline : Line.Derives depth tokens line) (hdepth : depth ≤ deeper) :
    Line.Derives deeper tokens line := by
  cases hline with
  | numbered hnumber hbody => exact .numbered hnumber (hbody.mono hdepth)
  | unnumbered hbody => exact .unnumbered (hbody.mono hdepth)

/-- The tokens, up to the end of input, derive the program. -/
inductive Program.Derives (depth : Nat) : List Token → Program → Prop where
  | finish {final : Token} (hfinal : final.kind = .endOfInput) :
      Derives depth [final] []
  | lastLine {tokens : List Token} {final : Token} {line : Line}
      (hline : Line.Derives depth tokens line) (hfinal : final.kind = .endOfInput) :
      Derives depth (tokens ++ [final]) [line]
  | blank {newline : Token} {tokens : List Token} {program : Program}
      (hnewline : newline.kind = .newline) (hothers : Derives depth tokens program) :
      Derives depth (newline :: tokens) program
  | line {front back : List Token} {newline : Token} {line : Line}
      {others : Program} (hline : Line.Derives depth front line)
      (hnewline : newline.kind = .newline) (hothers : Derives depth back others) :
      Derives depth (front ++ newline :: back) (line :: others)

end NumberedBasic
