import NumberedBasic.Expr
import NumberedBasic.Token

/-!
# The grammar of expressions

Which lists of tokens derive which expression.  Infix operators come in six
ranks, each associating to the left; prefix operators bind more tightly than
those, and powers more tightly still.  The exponent of a power may start with
a prefix operator, so that powers associate to the right.

A derivation has a depth: the number of rules that it applies one inside
another, or more.  What has one at some depth has one at every greater depth.
-/

namespace NumberedBasic

namespace TokenKind

/-- How tightly an operator binds that associates to the left. -/
def rank? : TokenKind → Option Nat
  | keyword .orWord => some 0
  | keyword .andWord => some 1
  | sign .equal | sign .notEqual => some 2
  | sign .less | sign .greater | sign .lessEqual | sign .greaterEqual => some 3
  | sign .plus | sign .minus => some 4
  | sign .times | sign .divide => some 5
  | _ => none

/-- An operator between two operands. -/
def isBinary (kind : TokenKind) : Bool :=
  kind.rank?.isSome || kind = sign .caret

/-- An operator in front of its operand. -/
def isUnary : TokenKind → Bool
  | keyword .notWord | sign .minus | sign .plus => true
  | _ => false

def opensBracket : TokenKind → Bool
  | sign .leftParen | sign .leftBracket => true
  | _ => false

/-- What an operand without a prefix operator can start with. -/
def startsPrimary : TokenKind → Bool
  | number | string | identifier | sign .leftParen => true
  | _ => false

/-- What an expression can start with. -/
def startsExpression (kind : TokenKind) : Bool :=
  kind.startsPrimary || kind.isUnary

/-- An opening bracket and the one that closes it. -/
inductive Brackets : TokenKind → TokenKind → Prop where
  | round : Brackets (sign .leftParen) (sign .rightParen)
  | square : Brackets (sign .leftBracket) (sign .rightBracket)

theorem Brackets.opensBracket {opening closing : TokenKind}
    (hbrackets : Brackets opening closing) : opening.opensBracket = true := by
  cases hbrackets <;> rfl

/-- Nothing made of operators of the rank or of higher ranks goes on with
the token. -/
structure Stops (rank : Nat) (kind : TokenKind) : Prop where
  bracket : kind.opensBracket = false
  caret : kind ≠ sign .caret
  lower : ∀ other, kind.rank? = some other → other < rank

theorem Stops.mono {rank higher : Nat} {kind : TokenKind}
    (hstops : kind.Stops rank) (hrank : rank ≤ higher) : kind.Stops higher :=
  ⟨hstops.bracket, hstops.caret, fun other hother =>
    Nat.lt_of_lt_of_le (hstops.lower other hother) hrank⟩

/-- An operator ends what is of higher rank than itself. -/
theorem stops_of_rank? {rank : Nat} {kind : TokenKind}
    (hrank : kind.rank? = some rank) : kind.Stops (rank + 1) := by
  refine ⟨?_, ?_, ?_⟩
  · unfold rank? at hrank
    split at hrank <;> first | rfl | cases hrank
  · rintro rfl
    cases hrank
  · intro other hother
    rw [hrank] at hother
    cases hother
    exact Nat.lt_succ_self rank

theorem lt_six_of_rank? {kind : TokenKind} (rank : Nat)
    (hrank : kind.rank? = some rank) : rank < 6 := by
  unfold rank? at hrank
  split at hrank <;> cases hrank <;> decide

theorem not_isUnary_of_startsPrimary {kind : TokenKind}
    (hstarts : kind.startsPrimary = true) : ¬kind.isUnary = true := by
  unfold startsPrimary at hstarts
  split at hstarts
  · exact nofun
  · exact nofun
  · exact nofun
  · exact nofun
  · cases hstarts

/-- A token that is neither an infix operator nor an opening bracket ends any
expression. -/
theorem stops_of_not_isBinary {kind : TokenKind} (hbinary : kind.isBinary = false)
    (hbracket : kind.opensBracket = false) : kind.Stops 0 := by
  rw [isBinary, Bool.or_eq_false_iff] at hbinary
  refine ⟨hbracket, by simpa using hbinary.2, ?_⟩
  intro other hother
  rw [hother] at hbinary
  cases hbinary.1

theorem Brackets.stops {opening closing : TokenKind}
    (hbrackets : Brackets opening closing) :
    closing.Stops 0 ∧ closing ≠ sign .comma := by
  cases hbrackets <;> exact ⟨stops_of_not_isBinary rfl rfl, nofun⟩

end TokenKind

/-! ## Lists -/

/-- Items that tokens spell, with a comma between every two. -/
inductive Separated {α : Type} (spells : List Token → α → Prop) :
    List Token → List α → Prop where
  | last {tokens : List Token} {item : α} (hitem : spells tokens item) :
      Separated spells tokens [item]
  | further {front back : List Token} {comma : Token} {item : α}
      {others : List α} (hitem : spells front item)
      (hcomma : comma.kind = .sign .comma)
      (hothers : Separated spells back others) :
      Separated spells (front ++ comma :: back) (item :: others)

theorem Separated.imp {α : Type} {spells spells' : List Token → α → Prop}
    {tokens : List Token} {items : List α}
    (hseparated : Separated spells tokens items)
    (himp : ∀ part item, spells part item → spells' part item) :
    Separated spells' tokens items := by
  induction hseparated with
  | last hitem => exact .last (himp _ _ hitem)
  | further hitem hcomma _ ih => exact .further (himp _ _ hitem) hcomma ih

/-! ## Rules -/

/-- What a list of tokens can be read as. -/
inductive Rule where
  | expression
  /-- Operands with infix operators of the rank or of higher ranks between
  them. -/
  | chain (rank : Nat)
  | prefixed
  | power
  | primary
  /-- A scalar or an array element. -/
  | place
  /-- Expressions with commas between them. -/
  | listed

namespace Rule

/-- What the tokens of a rule stand for. -/
abbrev Result : Rule → Type
  | expression | chain _ | prefixed | power | primary => Expr
  | place => Place
  | listed => List Expr

/-- The tokens derive the result by rules of which no more than the depth are
applied one inside another.  Further operands of a chain and further items of a
list do not go deeper. -/
inductive Derives : (rule : Rule) → (depth : Nat) → List Token → rule.Result →
    Prop where
  | entered {depth : Nat} {tokens : List Token} {expr : Expr}
      (hexpr : Derives (chain 0) depth tokens expr) :
      Derives expression (depth + 1) tokens expr
  | higher {depth rank : Nat} {tokens : List Token} {expr : Expr}
      (hrank : rank < 6) (hexpr : Derives (chain (rank + 1)) depth tokens expr) :
      Derives (chain rank) (depth + 1) tokens expr
  | infixed {depth rank : Nat} {front back : List Token} {operator : Token}
      {left right : Expr} (hleft : Derives (chain rank) (depth + 1) front left)
      (hoperator : operator.kind.rank? = some rank)
      (hright : Derives (chain (rank + 1)) depth back right) :
      Derives (chain rank) (depth + 1) (front ++ operator :: back)
        (.binaryOf operator.text left right)
  | operand {depth : Nat} {tokens : List Token} {expr : Expr}
      (hexpr : Derives prefixed depth tokens expr) :
      Derives (chain 6) (depth + 1) tokens expr
  | signed {depth : Nat} {tokens : List Token} {operator : Token} {expr : Expr}
      (hoperator : operator.kind.isUnary = true)
      (hexpr : Derives prefixed depth tokens expr) :
      Derives prefixed (depth + 1) (operator :: tokens)
        (.unaryOf operator.text expr)
  | unsigned {depth : Nat} {tokens : List Token} {expr : Expr}
      (hexpr : Derives power depth tokens expr) :
      Derives prefixed (depth + 1) tokens expr
  | raised {depth : Nat} {front back : List Token} {caret : Token}
      {base exponent : Expr} (hbase : Derives primary depth front base)
      (hcaret : caret.kind = .sign .caret)
      (hexponent : Derives prefixed depth back exponent) :
      Derives power (depth + 1) (front ++ caret :: back)
        (.binaryOf caret.text base exponent)
  | unraised {depth : Nat} {tokens : List Token} {expr : Expr}
      (hexpr : Derives primary depth tokens expr) :
      Derives power (depth + 1) tokens expr
  | number {depth : Nat} {numeral : Token} {x : Float}
      (hnumeral : numeral.kind = .number)
      (hx : Decimal.entireNumber? numeral.text.toList = some x) :
      Derives primary (depth + 1) [numeral] (.number x)
  | text {depth : Nat} {quoted : Token} (hquoted : quoted.kind = .string) :
      Derives primary (depth + 1) [quoted] (.text quoted.text)
  | reference {depth : Nat} {tokens : List Token} {target : Place}
      (htarget : Derives place depth tokens target) :
      Derives primary (depth + 1) tokens target.toExpr
  | grouped {depth : Nat} {tokens : List Token} {opening closing : Token}
      {expr : Expr} (hopening : opening.kind = .sign .leftParen)
      (hexpr : Derives expression depth tokens expr)
      (hclosing : closing.kind = .sign .rightParen) :
      Derives primary (depth + 1) (opening :: (tokens ++ [closing])) expr
  | scalar {depth : Nat} {name : Token} (hname : name.kind = .identifier) :
      Derives place (depth + 1) [name] ⟨name.text, []⟩
  | element {depth : Nat} {name opening closing : Token} {tokens : List Token}
      {indices : List Expr} (hname : name.kind = .identifier)
      (hindices : Derives listed depth tokens indices)
      (hbrackets : TokenKind.Brackets opening.kind closing.kind) :
      Derives place (depth + 1) (name :: opening :: (tokens ++ [closing]))
        ⟨name.text, indices⟩
  | last {depth : Nat} {tokens : List Token} {expr : Expr}
      (hexpr : Derives expression depth tokens expr) :
      Derives listed (depth + 1) tokens [expr]
  | further {depth : Nat} {front back : List Token} {comma : Token} {expr : Expr}
      {others : List Expr} (hexpr : Derives expression depth front expr)
      (hcomma : comma.kind = .sign .comma)
      (hothers : Derives listed (depth + 1) back others) :
      Derives listed (depth + 1) (front ++ comma :: back) (expr :: others)

variable {rule : Rule} {depth : Nat} {tokens : List Token} {result : rule.Result}

theorem Derives.succ (hderives : rule.Derives depth tokens result) :
    rule.Derives (depth + 1) tokens result := by
  induction hderives with
  | entered _ ih => exact .entered ih
  | higher hrank _ ih => exact .higher hrank ih
  | infixed _ hoperator _ ihLeft ihRight => exact .infixed ihLeft hoperator ihRight
  | operand _ ih => exact .operand ih
  | signed hoperator _ ih => exact .signed hoperator ih
  | unsigned _ ih => exact .unsigned ih
  | raised _ hcaret _ ihBase ihExponent => exact .raised ihBase hcaret ihExponent
  | unraised _ ih => exact .unraised ih
  | number hnumeral hx => exact .number hnumeral hx
  | text hquoted => exact .text hquoted
  | reference _ ih => exact .reference ih
  | grouped hopening _ hclosing ih => exact .grouped hopening ih hclosing
  | scalar hname => exact .scalar hname
  | element hname _ hbrackets ih => exact .element hname ih hbrackets
  | last _ ih => exact .last ih
  | further _ hcomma _ ihExpr ihOthers => exact .further ihExpr hcomma ihOthers

theorem Derives.mono {deeper : Nat} (hderives : rule.Derives depth tokens result)
    (hdepth : depth ≤ deeper) : rule.Derives deeper tokens result := by
  induction hdepth with
  | refl => exact hderives
  | step _ ih => exact ih.succ

/-- A derivation applies a rule at least. -/
theorem Derives.pos (hderives : rule.Derives depth tokens result) : 0 < depth := by
  cases hderives <;> exact Nat.succ_pos _

/-- What the tokens of a rule can start with. -/
def startsWith : Rule → TokenKind → Bool
  | place => (· = .identifier)
  | primary | power => TokenKind.startsPrimary
  | _ => TokenKind.startsExpression

/-- No rule derives anything from no token. -/
theorem Derives.head (hderives : rule.Derives depth tokens result) :
    ∃ first others, tokens = first :: others ∧
      rule.startsWith first.kind = true := by
  induction hderives with
  | entered _ ih | higher _ _ ih | operand _ ih | unraised _ ih | last _ ih =>
      exact ih
  | infixed _ _ _ ih | raised _ _ _ ih | further _ _ _ ih =>
      obtain ⟨first, others, rfl, hfirst⟩ := ih
      exact ⟨first, _, rfl, hfirst⟩
  | unsigned _ ih =>
      obtain ⟨first, others, rfl, hfirst⟩ := ih
      exact ⟨first, others, rfl, Bool.or_eq_true_iff.mpr (Or.inl hfirst)⟩
  | signed hoperator _ _ =>
      exact ⟨_, _, rfl, Bool.or_eq_true_iff.mpr (Or.inr hoperator)⟩
  | reference _ ih =>
      obtain ⟨first, others, rfl, hfirst⟩ := ih
      refine ⟨first, others, rfl, ?_⟩
      rw [of_decide_eq_true hfirst]
      rfl
  | number hkind | text hkind | scalar hkind | element hkind _ _ _
  | grouped hkind _ _ _ =>
      refine ⟨_, _, rfl, ?_⟩
      rw [hkind]
      rfl

/-- Between an expression and an operand there are the levels of operators. -/
theorem derives_of_prefixed {expr : Expr}
    (hderives : Derives prefixed depth tokens expr) :
    Derives expression (depth + 8) tokens expr :=
  .entered (.higher (by decide) (.higher (by decide) (.higher (by decide)
    (.higher (by decide) (.higher (by decide) (.higher (by decide)
      (.operand hderives)))))))

theorem derives_of_primary {expr : Expr}
    (hderives : Derives primary depth tokens expr) :
    Derives expression (depth + 10) tokens expr :=
  derives_of_prefixed (.unsigned (.unraised hderives))

theorem derives_listed {exprs : List Expr}
    (hseparated : Separated (Derives expression depth) tokens exprs) :
    Derives listed (depth + 1) tokens exprs := by
  induction hseparated with
  | last hexpr => exact .last hexpr
  | further hexpr hcomma _ ih => exact .further hexpr hcomma ih

end Rule

end NumberedBasic
