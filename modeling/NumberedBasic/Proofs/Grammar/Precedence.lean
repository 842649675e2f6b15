import NumberedBasic.Proofs.Grammar.ExpressionComplete

/-!
# The parser of expressions is its grammar

In front of a token that cannot go on with an expression, the parser answers
with what the tokens before it derive within its depth, and with nothing else.
Tokens that derive something only at a greater depth are refused as nested too
deeply.
-/

namespace NumberedBasic

namespace Parser

variable {depth deeper : Nat} {tokens : List Token} {expr : Expr}

theorem derives_of_expression {later : Cursor}
    (hparse : expression depth (later.before tokens) = .ok (expr, later))
    (hfinal : later.final.kind = .endOfInput) :
    Rule.expression.Derives depth tokens expr := by
  obtain ⟨read, hread, hderives⟩ :=
    (rulesSound depth).expression hparse hfinal
  rwa [Cursor.before_injective hread]

/-- With room for the depth of a derivation the parser does not fail. -/
theorem expression_eq_ok {later : Cursor} (hstops : later.peek.kind.Stops 0)
    (hderives : Rule.expression.Derives depth tokens expr)
    (hdepth : depth ≤ deeper) :
    expression deeper (later.before tokens) = .ok (expr, later) :=
  (expression_of_derives hderives deeper later hstops).resolve_right
    fun hdeep => Nat.not_lt.mpr hdepth hdeep.1

/-- Tokens derive at most one expression: the parser has one answer. -/
theorem derives_unique {other : Expr}
    (hderives : Rule.expression.Derives depth tokens expr)
    (hother : Rule.expression.Derives deeper tokens other) : expr = other := by
  let ending : Cursor := ⟨[], ⟨.endOfInput, "", Position.start⟩⟩
  have hstops : ending.peek.kind.Stops 0 :=
    TokenKind.stops_of_not_isBinary rfl rfl
  have hread := expression_eq_ok hstops hderives (Nat.le_max_left depth deeper)
  have hread' := expression_eq_ok hstops hother (Nat.le_max_right depth deeper)
  cases hread.symm.trans hread'
  rfl

/-- Started on tokens in front of one that is neither an infix operator nor an
opening bracket, the parser answers with an expression and stops at that token
exactly if the tokens derive the expression within the depth.  What they derive
at a greater depth only it refuses as nested too deeply, and nothing else that
they derive.  They derive at most one expression. -/
theorem expression_eq_ok_iff {following : Token} {further : List Token}
    {start stop : Cursor} (depth : Nat)
    (htokens : ∀ token ∈ tokens, token.kind ≠ .endOfInput)
    (hbinary : following.kind.isBinary = false)
    (hbracket : following.kind.opensBracket = false)
    (hstart : Cursor.ofTokens? (tokens ++ following :: further) = some start)
    (hstop : Cursor.ofTokens? (following :: further) = some stop) :
    (expression depth start = .ok (expr, stop) ↔
      Rule.expression.Derives depth tokens expr) ∧
    (∀ deeper, Rule.expression.Derives deeper tokens expr →
      (TooDeep (expression depth start) ↔
        ¬Rule.expression.Derives depth tokens expr)) ∧
    (∀ deeper deepest other, Rule.expression.Derives deeper tokens expr →
      Rule.expression.Derives deepest tokens other → expr = other) := by
  rw [Cursor.ofTokens?_append_cons htokens, hstop] at hstart
  cases hstart
  have hstops : stop.peek.kind.Stops 0 := by
    rw [Cursor.peek_of_ofTokens? hstop]
    exact TokenKind.stops_of_not_isBinary hbinary hbracket
  have hsound (hparse : expression depth (stop.before tokens) = .ok (expr, stop)) :=
    derives_of_expression hparse (Cursor.final_of_ofTokens? hstop)
  refine ⟨⟨hsound, fun hderives =>
    expression_eq_ok hstops hderives (Nat.le_refl depth)⟩, ?_, ?_⟩
  · intro deeper hderives
    refine ⟨fun hdeep hshallow => ?_, fun hdeep => ?_⟩
    · exact hdeep.ne_ok _ (expression_eq_ok hstops hshallow (Nat.le_refl depth))
    · rcases expression_of_derives hderives depth _ hstops with hok | ⟨-, hrefused⟩
      · exact absurd (hsound hok) hdeep
      · exact hrefused
  · exact fun _ _ _ => derives_unique

/-- A ^ - B ^ C * NOT D = E, in front of THEN. -/
def mixed : List Token :=
  [(.identifier, "A"), (.sign .caret, "^"), (.sign .minus, "-"),
    (.identifier, "B"), (.sign .caret, "^"), (.identifier, "C"),
    (.sign .times, "*"), (.keyword .notWord, "NOT"), (.identifier, "D"),
    (.sign .equal, "="), (.identifier, "E")].map
      fun (kind, text) => ⟨kind, text, Position.start⟩

theorem expression_eq_ok_iff_of_mixed :
    Rule.expression.Derives 17 mixed
      (.binary .equal
        (.binary .multiply
          (.binary .power (.reference "A" [])
            (.unary .negate
              (.binary .power (.reference "B" []) (.reference "C" []))))
          (.unary .not (.reference "D" [])))
        (.reference "E" [])) := by
  let following : Token := ⟨.keyword .thenWord, "THEN", Position.start⟩
  let final : Token := ⟨.endOfInput, "", Position.start⟩
  have hstart : Cursor.ofTokens? (mixed ++ following :: [final]) =
      some ⟨mixed ++ [following], final⟩ := rfl
  have hstop : Cursor.ofTokens? (following :: [final]) =
      some ⟨[following], final⟩ := rfl
  exact (expression_eq_ok_iff 17 (by decide) rfl rfl hstart hstop).1.mp rfl

/-! ## Nesting that is too deep -/

theorem TooDeep.bind {α β : Type} {first : Parser α} {cursor : Cursor}
    (hdeep : TooDeep (first cursor)) (next : α → Parser β) :
    TooDeep ((first >>= next) cursor) := by
  obtain ⟨position, hfirst⟩ := hdeep
  rw [bind_apply, hfirst]
  exact ⟨position, rfl⟩

theorem tooDeep_refuse {α : Type} (cursor : Cursor) :
    TooDeep ((refuse .nestedTooDeep : Parser α) cursor) :=
  ⟨cursor.peek.position, rfl⟩

/-- Chains of operators pass on what their first operand comes to. -/
theorem tooDeep_chains {levels : List (List TokenKind)} {cursor : Cursor}
    (hoperand : ∀ room, depth = room + levels.length + 1 →
      TooDeep (prefixed room cursor)) : TooDeep (chains depth levels cursor) := by
  induction levels generalizing depth with
  | nil =>
      cases depth with
      | zero => exact tooDeep_refuse _
      | succ depth => exact hoperand depth rfl
  | cons level tighter ih =>
      cases depth with
      | zero => exact tooDeep_refuse _
      | succ depth =>
          apply TooDeep.bind (ih fun room hroom => hoperand room ?_)
          rw [hroom, List.length_cons]
          omega

/-- An opening parenthesis takes eleven rules. -/
theorem tooDeep_paren {cursor : Cursor} (hpeek : cursor.peek.kind = .sign .leftParen)
    (hinner : ∀ room, depth = room + 11 → TooDeep (expression room cursor.skip)) :
    TooDeep (expression depth cursor) := by
  cases depth with
  | zero => exact tooDeep_refuse _
  | succ depth =>
      apply tooDeep_chains
      rintro (_ | _ | _ | room) hroom
      · exact tooDeep_refuse _
      · rw [prefixed, bind_apply, acceptAny_leave _ (by rw [hpeek]; rfl)]
        exact tooDeep_refuse _
      · rw [prefixed, bind_apply, acceptAny_leave _ (by rw [hpeek]; rfl)]
        exact (tooDeep_refuse (α := Expr) _).bind _
      · rw [prefixed, bind_apply, acceptAny_leave _ (by rw [hpeek]; rfl)]
        apply TooDeep.bind
        rw [primary, peek_bind_apply, hpeek]
        dsimp only
        rw [skip_bind_apply]
        apply TooDeep.bind (hinner room _)
        rw [hroom]
        rfl

theorem tooDeep_of_parens {opening : Token}
    (hopening : opening.kind = .sign .leftParen) (later : Cursor) (count : Nat)
    (hdepth : depth ≤ 11 * count) :
    TooDeep (expression depth (later.before (List.replicate count opening))) := by
  induction count generalizing depth with
  | zero =>
      rw [Nat.le_zero.mp hdepth]
      exact tooDeep_refuse _
  | succ count ih =>
      let cursor := later.before (List.replicate (count + 1) opening)
      have hpeek : cursor.peek.kind = .sign .leftParen := hopening
      apply tooDeep_paren hpeek
      intro room hroom
      exact ih (by omega)

/-- The tokens inside parentheses. -/
def inParens (count : Nat) (tokens : List Token) : List Token :=
  List.replicate count ⟨.sign .leftParen, "(", Position.start⟩ ++
    (tokens ++ List.replicate count ⟨.sign .rightParen, ")", Position.start⟩)

theorem inParens_succ (count : Nat) (tokens : List Token) :
    inParens (count + 1) tokens =
      ⟨.sign .leftParen, "(", Position.start⟩ ::
        (inParens count tokens ++ [⟨.sign .rightParen, ")", Position.start⟩]) := by
  rw [inParens, inParens, List.replicate_succ, List.replicate_succ']
  simp

theorem derives_inParens (hderives : Rule.expression.Derives depth tokens expr)
    (count : Nat) :
    Rule.expression.Derives (depth + 11 * count) (inParens count tokens) expr := by
  induction count with
  | zero => simpa [inParens] using hderives
  | succ count ih =>
      rw [inParens_succ]
      exact Rule.derives_of_primary (.grouped rfl ih rfl)

/-- A name in a thousand pairs of parentheses derives a reference, and with
room for a thousand rules the parser refuses it. -/
theorem expression_ne_ok_in_parens :
    let name : Token := ⟨.identifier, "A", Position.start⟩
    let final : Token := ⟨.endOfInput, "", Position.start⟩
    let tokens := inParens 1000 [name]
    Cursor.ofTokens? (tokens ++ [final]) = some ⟨tokens, final⟩ ∧
      Rule.expression.Derives 11012 tokens (.reference "A" []) ∧
      ∀ later, expression 1000 ⟨tokens, final⟩ ≠
        .ok (.reference "A" [], later) := by
  intro name final tokens
  have hkinds : ∀ token ∈ tokens, token.kind ≠ .endOfInput := by
    intro token htoken
    simp only [tokens, inParens, List.mem_append, List.mem_replicate,
      List.mem_singleton] at htoken
    rcases htoken with ⟨-, rfl⟩ | rfl | ⟨-, rfl⟩ <;> exact nofun
  have hname : Rule.expression.Derives 12 [name] (.reference "A" []) :=
    Rule.derives_of_primary (.reference (.scalar rfl))
  refine ⟨?_, derives_inParens hname 1000, ?_⟩
  · rw [Cursor.ofTokens?_append_cons hkinds]
    exact congrArg (fun rest => some (⟨rest, final⟩ : Cursor))
      (List.append_nil tokens)
  · intro later
    let closing : Token := ⟨.sign .rightParen, ")", Position.start⟩
    exact (tooDeep_of_parens rfl ⟨name :: List.replicate 1000 closing, final⟩ 1000
      (by decide)).ne_ok _

end Parser

end NumberedBasic
