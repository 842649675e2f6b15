import NumberedBasic.Proofs.Grammar.ExpressionSound

/-!
# Expressions that are derived are read

The parser of a rule reads whatever the rule derives, provided that what
follows does not go on with it.  The proof goes over the derivation.  A chain
of operators is built up on its left, so what is said of a chain is how far
the parser has come with it: the operators of its lowest rank may go on.
-/

namespace NumberedBasic

namespace Parser

open Rule

theorem chainRest_leave (level : List TokenKind) (operand : Parser Expr)
    (rounds : Nat) (left : Expr) {cursor : Cursor}
    (hkind : level.contains cursor.peek.kind = false) :
    chainRest level operand rounds left cursor = .ok (left, cursor) := by
  cases rounds with
  | zero => rfl
  | succ rounds =>
      rw [chainRest, bind_apply, acceptAny_leave cursor hkind]
      rfl

/-- The rest of a chain of chains after what stands on the left. -/
def chainsRest (depth rounds : Nat) : List (List TokenKind) → Expr → Parser Expr
  | [], left => return left
  | level :: tighter, left => chainRest level (chains depth tighter) rounds left

/-- With the tokens of a chain the parser comes to the rest of it. -/
def ReadsChain (rank depth : Nat) (tokens : List Token) (expr : Expr) : Prop :=
  ∀ ⦃levels⦄, Levels rank levels → ∀ room later,
    later.peek.kind.Stops (rank + 1) →
    ∃ rounds ≥ later.rest.length,
      AgreesUnless (room + 1 < depth)
        (chains (room + 1) levels (later.before tokens))
        (chainsRest room rounds levels expr later)

/-- The parser of the rule reads the tokens with the given result, unless
there is less room for rules than the depth. -/
def Reads : (rule : Rule) → (depth : Nat) → List Token → rule.Result → Prop
  | .expression, depth, tokens, expr => ∀ room later, later.peek.kind.Stops 0 →
      AgreesUnless (room < depth) (expression room (later.before tokens))
        (.ok (expr, later))
  | .chain rank, depth, tokens, expr => ReadsChain rank depth tokens expr
  | .prefixed, depth, tokens, expr => ∀ room later, later.peek.kind.Stops 6 →
      AgreesUnless (room < depth) (prefixed room (later.before tokens))
        (.ok (expr, later))
  | .power, depth, tokens, expr => ∀ room later, later.peek.kind.Stops 6 →
      AgreesUnless (room < depth) (power room (later.before tokens))
        (.ok (expr, later))
  | .primary, depth, tokens, expr => ∀ room later,
      later.peek.kind.opensBracket = false →
      AgreesUnless (room < depth) (primary room (later.before tokens))
        (.ok (expr, later))
  | .place, depth, tokens, target => ∀ room later,
      later.peek.kind.opensBracket = false →
      AgreesUnless (room < depth) (place room (later.before tokens))
        (.ok (target, later))
  | .listed, depth, tokens, exprs => ∀ room,
      Separated (fun part expr => ∀ later, later.peek.kind.Stops 0 →
        AgreesUnless (room + 1 < depth) (expression room (later.before part))
          (.ok (expr, later))) tokens exprs

variable {depth : Nat} {tokens front back : List Token}

/-! ## Chains of operators -/

namespace ReadsChain

variable {rank : Nat} {expr left right : Expr}

/-- Where no operator of any rank goes on, the parser has come to the end. -/
theorem closed (hpos : 0 < depth) (hreads : ReadsChain rank depth tokens expr)
    {levels : List (List TokenKind)} (hlevels : Levels rank levels) (room : Nat)
    (later : Cursor) (hstops : later.peek.kind.Stops rank) :
    AgreesUnless (room < depth) (chains room levels (later.before tokens))
      (.ok (expr, later)) := by
  cases room with
  | zero => exact agreesUnless_refuse hpos _ _
  | succ room =>
      obtain ⟨rounds, -, hagrees⟩ :=
        hreads hlevels room later (hstops.mono (Nat.le_succ rank))
      apply hagrees.trans
      cases hlevels with
      | highest => exact .refl _ _
      | @cons rank level tighter _ hlevel _ =>
          have hkind : level.contains later.peek.kind = false := by
            rw [← Bool.not_eq_true, hlevel]
            intro hrank
            exact Nat.lt_irrefl rank (hstops.lower rank hrank)
          rw [chainsRest, chainRest_leave _ _ _ _ hkind]
          exact .refl _ _

theorem higher (hrank : rank < 6) (hpos : 0 < depth)
    (hreads : ReadsChain (rank + 1) depth tokens expr) :
    ReadsChain rank (depth + 1) tokens expr := by
  intro levels hlevels room later hstops
  cases hlevels with
  | highest => exact absurd hrank (Nat.lt_irrefl 6)
  | cons _ _ htighter =>
      have hleft := hreads.closed hpos htighter room later hstops
      exact ⟨later.rest.length, Nat.le_refl _,
        (hleft.weaken Nat.succ_lt_succ).bind (.refl _ _)⟩

theorem infixed {operator : Token} (hleft : ReadsChain rank (depth + 1) front left)
    (hoperator : operator.kind.rank? = some rank) (hpos : 0 < depth)
    (hright : ReadsChain (rank + 1) depth back right) :
    ReadsChain rank (depth + 1) (front ++ operator :: back)
      (.binaryOf operator.text left right) := by
  intro levels hlevels room later hstops
  have hstart := hleft hlevels room (later.before (operator :: back))
    (TokenKind.stops_of_rank? hoperator)
  obtain ⟨rounds, hrounds, hagrees⟩ := hstart
  rw [Cursor.before_before] at hagrees
  cases hlevels with
  | highest => exact absurd (TokenKind.lt_six_of_rank? _ hoperator) (Nat.lt_irrefl 6)
  | cons _ hlevel htighter =>
      have hlength : back.length + later.rest.length + 1 ≤ rounds := by
        simpa [Cursor.before, Nat.add_right_comm] using hrounds
      obtain ⟨rounds, rfl⟩ :=
        Nat.exists_eq_add_one.mpr (Nat.zero_lt_of_lt hlength)
      refine ⟨rounds, by omega, hagrees.trans ?_⟩
      rw [chainsRest, chainRest, bind_apply,
        acceptAny_read _ _ _ ((hlevel _).mpr hoperator)]
      have hoperand := hright.closed hpos htighter room later hstops
      exact (hoperand.weaken Nat.succ_lt_succ).bind (.refl _ _)

theorem operand (hreads : Reads .prefixed depth tokens expr) :
    ReadsChain 6 (depth + 1) tokens expr := by
  intro levels hlevels room later hstops
  cases hlevels with
  | highest =>
      have hbelow : later.peek.kind.Stops 6 :=
        ⟨hstops.bracket, hstops.caret, TokenKind.lt_six_of_rank?⟩
      exact ⟨_, Nat.le_refl _,
        (hreads room later hbelow).weaken Nat.succ_lt_succ⟩
  | cons hrank _ _ => exact absurd hrank (Nat.lt_irrefl 6)

theorem entered (hpos : 0 < depth) (hreads : ReadsChain 0 depth tokens expr) :
    Reads .expression (depth + 1) tokens expr := by
  intro room later hstops
  cases room with
  | zero => exact agreesUnless_refuse (Nat.succ_pos _) _ _
  | succ room =>
      have hchain := hreads.closed hpos levels_operatorLevels room later hstops
      exact hchain.weaken Nat.succ_lt_succ

end ReadsChain

/-! ## Rules that nest -/

theorem numeral_apply {token : Token} {x : Float}
    (hx : Decimal.entireNumber? token.text.toList = some x) (cursor : Cursor) :
    numeral token cursor = .ok (.number x, cursor) := by
  simp only [numeral, hx]
  rfl

theorem variableName_read (later : Cursor) {name : Token} (tokens : List Token)
    (hname : name.kind = .identifier) :
    variableName (later.before (name :: tokens)) =
      .ok (name.text, later.before tokens) := by
  rw [variableName, bind_apply, demandOne_read _ _ _ _ hname]
  rfl

theorem closing?_of_brackets {opening closing : TokenKind}
    (hbrackets : TokenKind.Brackets opening closing) :
    closing? opening = some closing := by
  cases hbrackets <;> rfl

theorem closing?_eq_none {kind : TokenKind}
    (hbracket : kind.opensBracket = false) : closing? kind = none := by
  cases hclosing : closing? kind with
  | none => rfl
  | some closing =>
      rw [(brackets_of_closing? hclosing).opensBracket] at hbracket
      cases hbracket

namespace Reads

variable {expr : Expr}

theorem signed {operator : Token} (hoperator : operator.kind.isUnary = true)
    (hreads : Reads .prefixed depth tokens expr) :
    Reads .prefixed (depth + 1) (operator :: tokens)
      (.unaryOf operator.text expr) := by
  intro room later hstops
  cases room with
  | zero => exact agreesUnless_refuse (Nat.succ_pos _) _ _
  | succ room =>
      rw [prefixed, bind_apply,
        acceptAny_read _ _ _ (prefixOps_contains.mpr hoperator)]
      exact ((hreads room later hstops).weaken Nat.succ_lt_succ).map _

theorem unsigned (hderives : Derives .power depth tokens expr)
    (hreads : Reads .power depth tokens expr) :
    Reads .prefixed (depth + 1) tokens expr := by
  intro room later hstops
  cases room with
  | zero => exact agreesUnless_refuse (Nat.succ_pos _) _ _
  | succ room =>
      obtain ⟨first, others, rfl, hfirst⟩ := hderives.head
      have hnone : prefixOps.contains first.kind = false := by
        rw [← Bool.not_eq_true, prefixOps_contains]
        exact TokenKind.not_isUnary_of_startsPrimary hfirst
      rw [prefixed, bind_apply, acceptAny_leave _ hnone]
      exact (hreads room later hstops).weaken Nat.succ_lt_succ

theorem raised {caret : Token} {base exponent : Expr}
    (hbase : Reads .primary depth front base) (hcaret : caret.kind = .sign .caret)
    (hexponent : Reads .prefixed depth back exponent) :
    Reads .power (depth + 1) (front ++ caret :: back)
      (.binaryOf caret.text base exponent) := by
  intro room later hstops
  cases room with
  | zero => exact agreesUnless_refuse (Nat.succ_pos _) _ _
  | succ room =>
      have hfront := hbase room (later.before (caret :: back))
        (by change caret.kind.opensBracket = false; rw [hcaret]; rfl)
      rw [Cursor.before_before] at hfront
      rw [power]
      apply (hfront.weaken Nat.succ_lt_succ).bind
      rw [bind_apply, acceptAny_read _ _ _ (by rw [hcaret]; rfl)]
      exact ((hexponent room later hstops).weaken Nat.succ_lt_succ).map _

theorem unraised (hreads : Reads .primary depth tokens expr) :
    Reads .power (depth + 1) tokens expr := by
  intro room later hstops
  cases room with
  | zero => exact agreesUnless_refuse (Nat.succ_pos _) _ _
  | succ room =>
      rw [power]
      apply ((hreads room later hstops.bracket).weaken Nat.succ_lt_succ).bind
      rw [bind_apply, acceptAny_leave _ (by simpa using hstops.caret)]
      exact .refl _ _

theorem number {numeral : Token} {x : Float} (hnumeral : numeral.kind = .number)
    (hx : Decimal.entireNumber? numeral.text.toList = some x) :
    Reads .primary (depth + 1) [numeral] (.number x) := by
  intro room later _
  cases room with
  | zero => exact agreesUnless_refuse (Nat.succ_pos _) _ _
  | succ room =>
      rw [primary, peek_bind_apply, Cursor.peek_before, hnumeral]
      dsimp only
      rw [skip_bind_apply, Cursor.skip_before, numeral_apply hx]
      exact .refl _ _

theorem text {quoted : Token} (hquoted : quoted.kind = .string) :
    Reads .primary (depth + 1) [quoted] (.text quoted.text) := by
  intro room later _
  cases room with
  | zero => exact agreesUnless_refuse (Nat.succ_pos _) _ _
  | succ room =>
      rw [primary, peek_bind_apply, Cursor.peek_before, hquoted]
      exact .refl _ _

theorem reference {target : Place} (hderives : Derives .place depth tokens target)
    (hreads : Reads .place depth tokens target) :
    Reads .primary (depth + 1) tokens target.toExpr := by
  intro room later hbracket
  cases room with
  | zero => exact agreesUnless_refuse (Nat.succ_pos _) _ _
  | succ room =>
      obtain ⟨first, others, rfl, hfirst⟩ := hderives.head
      have hkind : first.kind = .identifier := of_decide_eq_true hfirst
      rw [primary, peek_bind_apply, Cursor.peek_before, hkind]
      exact ((hreads room later hbracket).weaken Nat.succ_lt_succ).map _

theorem grouped {opening closing : Token} (hopening : opening.kind = .sign .leftParen)
    (hreads : Reads .expression depth tokens expr)
    (hclosing : closing.kind = .sign .rightParen) :
    Reads .primary (depth + 1) (opening :: (tokens ++ [closing])) expr := by
  intro room later _
  cases room with
  | zero => exact agreesUnless_refuse (Nat.succ_pos _) _ _
  | succ room =>
      have hinner := hreads room (later.before [closing])
        (hclosing ▸ TokenKind.stops_of_not_isBinary rfl rfl :
          closing.kind.Stops 0)
      rw [Cursor.before_before] at hinner
      rw [primary, peek_bind_apply, Cursor.peek_before, hopening]
      dsimp only
      rw [skip_bind_apply, Cursor.skip_before]
      apply (hinner.weaken Nat.succ_lt_succ).bind
      rw [bind_apply, demandOne_read _ _ _ _ hclosing]
      exact .refl _ _

theorem scalar {name : Token} (hname : name.kind = .identifier) :
    Reads .place (depth + 1) [name] ⟨name.text, []⟩ := by
  intro room later hbracket
  cases room with
  | zero => exact agreesUnless_refuse (Nat.succ_pos _) _ _
  | succ room =>
      rw [place, bind_apply, variableName_read _ _ hname]
      change AgreesUnless _ ((accept closing? >>= _) later) _
      rw [bind_apply, accept_leave _ (closing?_eq_none hbracket)]
      exact .refl _ _

/-- A list of expressions, with room that may not be enough for it. -/
theorem expressionList {exprs : List Expr} (hpos : 0 < depth)
    (hreads : Reads .listed depth tokens exprs) (room : Nat) (later : Cursor)
    (hstops : later.peek.kind.Stops 0 ∧ later.peek.kind ≠ .sign .comma) :
    AgreesUnless (room < depth) (expressionList room (later.before tokens))
      (.ok (exprs, later)) := by
  cases room with
  | zero => exact agreesUnless_refuse hpos _ _
  | succ room =>
      exact commaList_read (fun _ _ later hpart hnext => hpart later hnext)
        (hreads room) hstops

theorem element {name opening closing : Token} {indices : List Expr}
    (hname : name.kind = .identifier) (hpos : 0 < depth)
    (hreads : Reads .listed depth tokens indices)
    (hbrackets : TokenKind.Brackets opening.kind closing.kind) :
    Reads .place (depth + 1) (name :: opening :: (tokens ++ [closing]))
      ⟨name.text, indices⟩ := by
  intro room later _
  cases room with
  | zero => exact agreesUnless_refuse (Nat.succ_pos _) _ _
  | succ room =>
      have hlist := expressionList hpos hreads room (later.before [closing])
        hbrackets.stops
      rw [Cursor.before_before] at hlist
      rw [place, bind_apply, variableName_read _ _ hname]
      change AgreesUnless _ ((accept closing? >>= _) _) _
      rw [bind_apply, accept_read _ _ _ (closing?_of_brackets hbrackets)]
      apply (hlist.weaken Nat.succ_lt_succ).bind
      rw [bind_apply, demandOne_read _ _ _ _ rfl]
      exact .refl _ _

end Reads

/-- Whatever a rule derives, its parser reads. -/
theorem reads_of_derives {rule : Rule} {result : rule.Result}
    (hderives : rule.Derives depth tokens result) :
    Reads rule depth tokens result := by
  induction hderives with
  | entered hexpr ih => exact ReadsChain.entered hexpr.pos ih
  | higher hrank hexpr ih => exact ReadsChain.higher hrank hexpr.pos ih
  | infixed _ hoperator hright ihLeft ihRight =>
      exact ReadsChain.infixed ihLeft hoperator hright.pos ihRight
  | operand _ ih => exact ReadsChain.operand ih
  | signed hoperator _ ih => exact Reads.signed hoperator ih
  | unsigned hexpr ih => exact Reads.unsigned hexpr ih
  | raised _ hcaret _ ihBase ihExponent =>
      exact Reads.raised ihBase hcaret ihExponent
  | unraised _ ih => exact Reads.unraised ih
  | number hnumeral hx => exact Reads.number hnumeral hx
  | text hquoted => exact Reads.text hquoted
  | reference htarget ih => exact Reads.reference htarget ih
  | grouped hopening _ hclosing ih => exact Reads.grouped hopening ih hclosing
  | scalar hname => exact Reads.scalar hname
  | element hname hindices hbrackets ih =>
      exact Reads.element hname hindices.pos ih hbrackets
  | last _ ih =>
      exact fun room => .last fun later hstops =>
        (ih room later hstops).weaken Nat.succ_lt_succ
  | further _ hcomma _ ihExpr ihOthers =>
      exact fun room => .further (fun later hstops =>
        (ihExpr room later hstops).weaken Nat.succ_lt_succ) hcomma (ihOthers room)

/-- An expression in front of a token that ends it. -/
theorem expression_of_derives {expr : Expr}
    (hderives : Rule.expression.Derives depth tokens expr) (room : Nat)
    (later : Cursor) (hstops : later.peek.kind.Stops 0) :
    AgreesUnless (room < depth) (Parser.expression room (later.before tokens))
      (.ok (expr, later)) :=
  reads_of_derives hderives room later hstops

end Parser

end NumberedBasic
