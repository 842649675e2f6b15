import NumberedBasic.Proofs.Grammar.ExpressionComplete
import NumberedBasic.Proofs.Grammar.StatementSound

/-!
# Statements that are derived are read

The parser of a statement reads whatever the grammar derives, in front of the
end of a branch; in front of an ELSE only what awaits none.  There may be less
room for rules than the depth at which it is derived: then it may also be
refused as nested too deeply.
-/

namespace NumberedBasic

theorem TokenKind.stops_of_endsBranch {kind : TokenKind}
    (hend : kind.endsBranch = true) : kind.Stops 0 ∧ kind ≠ .sign .comma := by
  have hcases : (kind = .newline ∨ kind = .endOfInput) ∨
      kind = .keyword .elseWord := by
    simpa [TokenKind.endsBranch, TokenKind.endsStatement] using hend
  rcases hcases with (rfl | rfl) | rfl <;>
    exact ⟨TokenKind.stops_of_not_isBinary rfl rfl, nofun⟩

theorem TokenKind.ne_of_endsBranch {kind other : TokenKind}
    (hend : kind.endsBranch = true) (hother : other.endsBranch = false) :
    kind ≠ other := by
  rintro rfl
  exact Bool.noConfusion (hother.symm.trans hend)

theorem TokenKind.not_endsBranch_of_startsExpression {kind : TokenKind}
    (hstarts : kind.startsExpression = true) : kind.endsBranch = false := by
  cases kind with
  | keyword word => cases word <;> first | rfl | cases hstarts
  | newline | endOfInput => cases hstarts
  | _ => rfl

theorem TokenKind.Separates.stops {kind : TokenKind} {separator : Separator}
    (hseparates : kind.Separates separator) : kind.Stops 0 := by
  cases hseparates <;> exact TokenKind.stops_of_not_isBinary rfl rfl

namespace Parser

section Parts

variable {later : Cursor} {tokens front back : List Token} {deep : Prop}

/-- One parser after another, each with its own tokens. -/
theorem AgreesUnless.bind_before {α β : Type} {first : Parser α}
    {next : α → Parser β} {middle : α} {expected : Except ParseFailure (β × Cursor)}
    (hfirst : AgreesUnless deep (first ((later.before back).before front))
      (.ok (middle, later.before back)))
    (hnext : AgreesUnless deep (next middle (later.before back)) expected) :
    AgreesUnless deep ((first >>= next) (later.before (front ++ back)))
      expected := by
  rw [← Cursor.before_before]
  exact hfirst.bind hnext

theorem lineNumber_read {numeral : Token} {number : Int}
    (hnumber : numeral.IsLineNumber number) (cursor : Cursor) :
    lineNumber numeral cursor = .ok (number, cursor) := by
  have hsigns : numeral.text.toList.all Text.isDigitSign = true := by
    rw [List.all_eq_true]
    intro c hc
    rw [Text.isDigitSign, hnumber.digits c hc, Bool.true_or]
  have hdigits : numeral.text.toList.all Text.isDigit = true :=
    List.all_eq_true.mpr hnumber.digits
  unfold lineNumber Text.wholeNumber?
  rw [hsigns, hdigits, List.isEmpty_eq_false_iff.mpr hnumber.nonempty,
    if_pos hnumber.short, hnumber.value]
  rfl

theorem acceptNumeral_read {numeral : Token} (hnumeral : numeral.kind = .number) :
    acceptNumeral (later.before (numeral :: tokens)) =
      .ok (some numeral, later.before tokens) :=
  acceptAny_read _ _ _ (by rw [hnumeral]; rfl)

theorem acceptNumeral_leave {cursor : Cursor} (hkind : cursor.peek.kind ≠ .number) :
    acceptNumeral cursor = .ok (none, cursor) :=
  acceptAny_leave _ (by simpa using hkind)

theorem separator?_of_separates {kind : TokenKind} {separator : Separator}
    (hseparates : kind.Separates separator) :
    printRest.separator? kind = some separator := by
  cases hseparates <;> rfl

theorem separator?_of_endsBranch {kind : TokenKind}
    (hend : kind.endsBranch = true) : printRest.separator? kind = none := by
  unfold printRest.separator?
  split
  · cases hend
  · cases hend
  · rfl

theorem stops_of_printRest {depth : Nat} {separators : List Separator}
    {exprs : List Expr} {ending? : Option Separator}
    (hrest : PrintRest depth tokens separators exprs ending?)
    (hend : later.peek.kind.endsBranch = true) :
    (later.before tokens).peek.kind.Stops 0 := by
  cases hrest with
  | nothing => exact (TokenKind.stops_of_endsBranch hend).1
  | ending hmark | further hmark _ _ => exact hmark.stops

theorem peek_of_derives {rule : Rule} {depth : Nat} {result : rule.Result}
    (hderives : rule.Derives depth front result) (cursor : Cursor) :
    rule.startsWith (cursor.before front).peek.kind = true := by
  obtain ⟨first, others, rfl, hfirst⟩ := hderives.head
  exact hfirst

theorem printRest_leave (item : Parser Expr) (rounds : Nat)
    (hnone : printRest.separator? later.peek.kind = none) :
    printRest item rounds later = .ok (([], [], none), later) := by
  cases rounds with
  | zero => rfl
  | succ rounds =>
      rw [printRest, bind_apply, accept_leave _ hnone]
      rfl

theorem printRest_read {separators : List Separator} {exprs : List Expr}
    {ending? : Option Separator} {depth : Nat}
    (hrest : PrintRest depth tokens separators exprs ending?) (room : Nat)
    (hend : later.peek.kind.endsBranch = true) {rounds : Nat}
    (hrounds : tokens.length ≤ rounds) :
    AgreesUnless (room < depth)
      (printRest (expression room) rounds (later.before tokens))
      (.ok ((separators, exprs, ending?), later)) := by
  induction hrest generalizing rounds with
  | nothing =>
      rw [Cursor.before_nil,
        printRest_leave _ rounds (separator?_of_endsBranch hend)]
      exact .refl _ _
  | ending hmark =>
      cases rounds with
      | zero => exact absurd hrounds (Nat.not_succ_le_zero _)
      | succ rounds =>
          rw [printRest, bind_apply,
            accept_read _ _ _ (separator?_of_separates hmark)]
          change AgreesUnless _ ((if later.peek.kind.endsBranch then _ else _ :
            Parser _) later) _
          rw [if_pos hend]
          exact .refl _ _
  | @further front back mark _ _ _ _ _ hmark hexpr hothers ih =>
      rw [List.length_cons, List.length_append] at hrounds
      cases rounds with
      | zero => omega
      | succ rounds =>
          have hstarts := TokenKind.not_endsBranch_of_startsExpression
            (peek_of_derives hexpr (later.before back))
          rw [printRest, bind_apply,
            accept_read _ _ _ (separator?_of_separates hmark)]
          rw [Cursor.before_before] at hstarts
          change AgreesUnless _ ((if (later.before (front ++ back)).peek.kind.endsBranch
            then _ else _ : Parser _) _) _
          rw [hstarts]
          apply AgreesUnless.bind_before
          · exact expression_of_derives hexpr room _
              (stops_of_printRest hothers hend)
          · exact (ih (by omega)).map _

theorem printStatement_read {depth : Nat} {expr : Expr}
    {separators : List Separator} {exprs : List Expr} {ending? : Option Separator}
    (hexpr : Rule.expression.Derives depth front expr)
    (hrest : PrintRest depth back separators exprs ending?) (room : Nat)
    (hend : later.peek.kind.endsBranch = true) :
    AgreesUnless (room < depth)
      (printStatement room (later.before (front ++ back)))
      (.ok (.print (expr :: exprs) separators ending?, later)) := by
  have hstarts := TokenKind.not_endsBranch_of_startsExpression
    (peek_of_derives hexpr (later.before back))
  rw [Cursor.before_before] at hstarts
  rw [printStatement, peek_bind_apply, hstarts]
  apply AgreesUnless.bind_before
  · exact expression_of_derives hexpr room _ (stops_of_printRest hrest hend)
  · have hrounds : back.length ≤ (later.before back).rest.length := by
      simp [Cursor.before]
    rw [remaining_bind_apply]
    exact (printRest_read hrest room hend hrounds).map _

end Parts

/-! ## Other parts -/

/-- A FOR from after its limit on. -/
def loopStep (room : Nat) (name : String) (start limit : Expr) :
    Parser Statement := do
  if ← acceptKind (.keyword .stepWord) then
    return .forLoop name start limit (some (← expression room))
  else return .forLoop name start limit none

section Parts

variable {depth : Nat} {later : Cursor} {tokens : List Token} (room : Nat)
  (hend : later.peek.kind.endsBranch = true)

omit hend in
theorem place_read {target : Place}
    (htarget : Rule.place.Derives (depth + 1) tokens target)
    (hbracket : later.peek.kind.opensBracket = false) :
    AgreesUnless (room < depth) (place (room + 1) (later.before tokens))
      (.ok (target, later)) :=
  (reads_of_derives htarget (room + 1) later hbracket).weaken
    Nat.lt_of_succ_lt_succ

include hend

theorem assignment_read {body : Statement} (hassigns : Assigns depth tokens body) :
    AgreesUnless (room < depth) (assignment room (later.before tokens))
      (.ok (body, later)) := by
  cases hassigns with
  | @intro front back equal target value htarget hequal hvalue =>
      have hbracket : (later.before (equal :: back)).peek.kind.opensBracket =
          false := by
        rw [Cursor.peek_before, hequal]
        rfl
      have hexpression := expression_of_derives hvalue room later
        (TokenKind.stops_of_endsBranch hend).1
      apply AgreesUnless.bind_before (place_read room htarget hbracket)
      rw [demandOne_bind_read _ _ _ hequal]
      exact hexpression.map _

omit hend in
theorem jump_read {numeral : Token} {number : Int}
    (hnumber : numeral.IsLineNumber number) :
    jump (later.before [numeral]) = .ok (.goto (some number), later) := by
  rw [jump, demandOne_bind_read _ _ _ hnumber.kind, bind_apply,
    lineNumber_read hnumber]
  rfl

omit hend in
/-- A FOR up to its limit, in front of what ends that. -/
theorem loop_limit_read {name equal toToken : Token} {front back : List Token}
    {start limit : Expr} (hname : name.kind = .identifier)
    (hequal : equal.kind = .sign .equal)
    (hstart : Rule.expression.Derives depth front start)
    (hto : toToken.kind = .keyword .toWord)
    (hlimit : Rule.expression.Derives depth back limit)
    (hstops : later.peek.kind.Stops 0)
    {expected : Except ParseFailure (Statement × Cursor)}
    (hrest : AgreesUnless (room < depth)
      (loopStep room name.text start limit later) expected) :
    AgreesUnless (room < depth)
      (loop room (later.before (name :: equal :: (front ++ toToken :: back))))
      expected := by
  have hto' : toToken.kind.Stops 0 := hto ▸ TokenKind.stops_of_not_isBinary rfl rfl
  have hfront := expression_of_derives hstart room
    (later.before (toToken :: back)) hto'
  have hback := expression_of_derives hlimit room later hstops
  rw [loop, demandOne_bind_read _ _ _ hname, demandOne_bind_read _ _ _ hequal]
  apply AgreesUnless.bind_before hfront
  rw [demandOne_bind_read _ _ _ hto]
  exact hback.bind hrest

theorem loop_read {name equal toToken : Token} {front back : List Token}
    {start limit : Expr} (hname : name.kind = .identifier)
    (hequal : equal.kind = .sign .equal)
    (hstart : Rule.expression.Derives depth front start)
    (hto : toToken.kind = .keyword .toWord)
    (hlimit : Rule.expression.Derives depth back limit) :
    AgreesUnless (room < depth)
      (loop room (later.before (name :: equal :: (front ++ toToken :: back))))
      (.ok (.forLoop name.text start limit none, later)) := by
  have hstep : later.peek.kind ≠ .keyword .stepWord :=
    TokenKind.ne_of_endsBranch hend rfl
  apply loop_limit_read room hname hequal hstart hto hlimit
    (TokenKind.stops_of_endsBranch hend).1
  rw [loopStep, bind_apply, acceptKind_leave _ hstep]
  exact .refl _ _

theorem loop_step_read {name equal toToken stepToken : Token}
    {front middle back : List Token} {start limit step : Expr}
    (hname : name.kind = .identifier) (hequal : equal.kind = .sign .equal)
    (hstart : Rule.expression.Derives depth front start)
    (hto : toToken.kind = .keyword .toWord)
    (hlimit : Rule.expression.Derives depth middle limit)
    (hby : stepToken.kind = .keyword .stepWord)
    (hstep : Rule.expression.Derives depth back step) :
    let tokens :=
      name :: equal :: (front ++ toToken :: (middle ++ stepToken :: back))
    AgreesUnless (room < depth) (loop room (later.before tokens))
      (.ok (.forLoop name.text start limit (some step), later)) := by
  intro tokens
  have htokens : later.before tokens = (later.before (stepToken :: back)).before
      (name :: equal :: (front ++ toToken :: middle)) := by
    simp [tokens]
  have hby' : (later.before (stepToken :: back)).peek.kind.Stops 0 := by
    rw [Cursor.peek_before, hby]
    exact TokenKind.stops_of_not_isBinary rfl rfl
  have hback := expression_of_derives hstep room later
    (TokenKind.stops_of_endsBranch hend).1
  rw [htokens]
  apply loop_limit_read room hname hequal hstart hto hlimit hby'
  rw [loopStep, bind_apply, acceptKind_read _ _ _ hby]
  exact hback.map _

omit hend in
theorem complete_name (deep : Prop) (what : Expected) :
    Complete deep (loopEnd.name what) IsName fun _ => True := by
  rintro _ _ later ⟨hname⟩ _
  rw [loopEnd.name, demandOne_bind_read _ _ _ hname]
  exact .refl _ _

theorem loopEnd_read {names : List String}
    (hnames : Separated IsName tokens names) (deep : Prop) :
    AgreesUnless deep (loopEnd (later.before tokens)) (.ok (.next names, later)) := by
  have hfirst : (later.before tokens).peek.kind = .identifier := by
    cases hnames with
    | last hname | further hname _ _ => cases hname; assumption
  rw [loopEnd, peek_bind_apply, if_pos hfirst]
  apply AgreesUnless.map
  exact complete_commaList trivial (complete_name deep _) (complete_name deep _)
    later hnames ⟨trivial, (TokenKind.stops_of_endsBranch hend).2⟩

omit hend in
theorem number_read {numeral : Token} {x : Float}
    (hx : Decimal.entireNumber? numeral.text.toList = some x) (cursor : Cursor) :
    dataItem.number numeral cursor = .ok (x, cursor) := by
  simp only [dataItem.number, hx]
  rfl

omit hend in
theorem complete_dataItem (deep : Prop) :
    Complete deep dataItem DataItem fun _ => True := by
  intro tokens value later hitem _
  cases hitem with
  | text hquoted =>
      rw [dataItem, bind_apply,
        accept_leave _ (by rw [Cursor.peek_before, hquoted]; rfl)]
      change AgreesUnless _ ((demand _ _ >>= _) _) _
      rw [demand_bind_read _ _ _ (by rw [hquoted]; rfl), if_pos hquoted]
      exact .refl _ _
  | unsigned hnumeral hx =>
      rw [dataItem, bind_apply,
        accept_leave _ (by rw [Cursor.peek_before, hnumeral]; rfl)]
      change AgreesUnless _ ((demand _ _ >>= _) _) _
      rw [demand_bind_read _ _ _ (by rw [hnumeral]; rfl),
        if_neg (by rw [hnumeral]; exact nofun), bind_apply, number_read hx]
      exact .refl _ _
  | plus hsign hnumeral hx =>
      rw [dataItem, bind_apply, accept_read _ _ _ (by rw [hsign]; rfl)]
      change AgreesUnless _ ((demand _ _ >>= _) _) _
      rw [demandOne_bind_read _ _ _ hnumeral, bind_apply, number_read hx]
      exact .refl _ _
  | minus hsign hnumeral hx =>
      rw [dataItem, bind_apply, accept_read _ _ _ (by rw [hsign]; rfl)]
      change AgreesUnless _ ((demand _ _ >>= _) _) _
      rw [demandOne_bind_read _ _ _ hnumeral, bind_apply, number_read hx]
      exact .refl _ _

theorem places_read {targets : List Place}
    (htargets : Separated (Rule.place.Derives (depth + 1)) tokens targets) :
    AgreesUnless (room < depth)
      (commaList (place (room + 1)) (place (room + 1)) (later.before tokens))
      (.ok (targets, later)) := by
  refine commaList_read ?_ htargets (TokenKind.stops_of_endsBranch hend)
  intro part target later htarget hstops
  exact place_read room htarget hstops.bracket

theorem restoration_leave :
    restoration later = .ok (.restore none, later) := by
  have hkind : later.peek.kind ≠ .number := TokenKind.ne_of_endsBranch hend rfl
  rw [restoration, bind_apply, acceptNumeral_leave hkind]
  rfl

omit hend in
theorem restoration_read {numeral : Token} {number : Int}
    (hnumber : numeral.IsLineNumber number) :
    restoration (later.before [numeral]) =
      .ok (.restore (some number), later) := by
  rw [restoration, bind_apply, acceptNumeral_read hnumber.kind]
  change (lineNumber numeral >>= _) later = _
  rw [bind_apply, lineNumber_read hnumber]
  rfl

omit hend in
theorem stops_of_closesBracket {kind : TokenKind}
    (hcloses : kind.closesBracket = true) : kind.Stops 0 ∧ kind ≠ .sign .comma := by
  unfold TokenKind.closesBracket at hcloses
  split at hcloses
  · exact ⟨TokenKind.stops_of_not_isBinary rfl rfl, nofun⟩
  · exact ⟨TokenKind.stops_of_not_isBinary rfl rfl, nofun⟩
  · cases hcloses

omit hend in
theorem declaration_read {array : Declaration}
    (harray : Declares depth tokens array) :
    AgreesUnless (room < depth) (declaration room (later.before tokens))
      (.ok (array, later)) := by
  cases harray with
  | @intro name opening closing tokens bounds hname hopening hbounds hclosing =>
      have hlist := Reads.expressionList hbounds.pos (reads_of_derives hbounds)
        (room + 1) (later.before [closing]) (stops_of_closesBracket hclosing)
      rw [declaration, demandOne_bind_read _ _ _ hname,
        demand_bind_read _ _ _ (contains_opensBracket.mpr hopening)]
      apply AgreesUnless.bind_before (hlist.weaken Nat.lt_of_succ_lt_succ)
      rw [demand_bind_read _ _ _ (contains_closesBracket.mpr hclosing)]
      exact .refl _ _

theorem declarations_read {arrays : List Declaration}
    (harrays : Separated (Declares depth) tokens arrays) :
    AgreesUnless (room < depth)
      (commaList (declaration room) (declaration room) (later.before tokens))
      (.ok (arrays, later)) := by
  refine commaList_read ?_ harrays (TokenKind.stops_of_endsBranch hend)
  intro part array later harray _
  exact declaration_read room harray

theorem remark_leave : remark later = .ok (.remark "", later) := by
  have hkind : later.peek.kind ≠ .string := TokenKind.ne_of_endsBranch hend rfl
  rw [remark, peek_bind_apply, if_neg hkind]
  rfl

omit hend in
theorem remark_read {comment : Token} (hcomment : comment.kind = .string) :
    remark (later.before [comment]) = .ok (.remark comment.text, later) := by
  have hpeek : (later.before [comment]).peek.kind = .string := hcomment
  rw [remark, peek_bind_apply, if_pos hpeek, skip_bind_apply]
  rfl

/-! ## Statements -/

/-- What follows the first word of a statement that is no IF. -/
theorem simpleStatement_read {word : Keyword} {body : Statement}
    (hbody : word.Heads depth tokens body) :
    AgreesUnless (room < depth)
      (simpleStatement room word (later.before tokens)) (.ok (body, later)) := by
  have hnoName : later.peek.kind ≠ .identifier :=
    TokenKind.ne_of_endsBranch hend rfl
  cases hbody with
  | printNothing =>
      change AgreesUnless _ (printStatement room later) _
      rw [printStatement, peek_bind_apply, if_pos hend]
      exact .refl _ _
  | print hexpr hrest => exact printStatement_read hexpr hrest room hend
  | assign hassigns => exact assignment_read room hend hassigns
  | goto hnumber =>
      change AgreesUnless _ (jump _) _
      rw [jump_read hnumber]
      exact .refl _ _
  | forLoop hname hequal hstart hto hlimit =>
      exact loop_read room hend hname hequal hstart hto hlimit
  | forStep hname hequal hstart hto hlimit hby hstep =>
      exact loop_step_read room hend hname hequal hstart hto hlimit hby hstep
  | nextLatest =>
      change AgreesUnless _ (loopEnd later) _
      rw [loopEnd, peek_bind_apply, if_neg hnoName]
      exact .refl _ _
  | next hnames => exact loopEnd_read hend hnames _
  | data hvalues =>
      apply AgreesUnless.map
      exact complete_commaList trivial (complete_dataItem _) (complete_dataItem _)
        later hvalues ⟨trivial, (TokenKind.stops_of_endsBranch hend).2⟩
  | read htargets => exact (places_read room hend htargets).map _
  | restoreAll =>
      change AgreesUnless _ (restoration later) _
      rw [restoration_leave hend]
      exact .refl _ _
  | restore hnumber =>
      change AgreesUnless _ (restoration _) _
      rw [restoration_read hnumber]
      exact .refl _ _
  | dim harrays => exact (declarations_read room hend harrays).map _
  | stop => exact .refl _ _
  | remarkNothing =>
      change AgreesUnless _ (remark later) _
      rw [remark_leave hend]
      exact .refl _ _
  | remark hcomment =>
      change AgreesUnless _ (remark _) _
      rw [remark_read hcomment]
      exact .refl _ _

end Parts

section Starts

variable {depth : Nat} {tokens : List Token} {body : Statement}

theorem startsSimple_of_heads {word : Keyword}
    (hbody : word.Heads depth tokens body) :
    startsSimple word = true ∧ word ≠ .ifWord ∧ word ≠ .elseWord := by
  cases hbody <;> exact ⟨rfl, nofun, nofun⟩

theorem identifier_of_assigns (hassigns : Assigns depth tokens body)
    (later : Cursor) :
    (later.before tokens).peek.kind = .identifier := by
  cases hassigns with
  | @intro front back equal _ _ htarget _ _ =>
      have hfirst := peek_of_derives htarget (later.before (equal :: back))
      rw [Cursor.before_before] at hfirst
      exact of_decide_eq_true hfirst

/-- A statement starts with a word or a name, so that it is no line number and
does not end a branch. -/
theorem starts_of_statement (hbody : Phrase.statement.Derives depth tokens body)
    (later : Cursor) :
    (later.before tokens).peek.kind ≠ .number ∧
      (later.before tokens).peek.kind.endsBranch = false := by
  cases hbody with
  | headed hfirst hbody =>
      obtain ⟨-, -, helse⟩ := startsSimple_of_heads hbody
      rw [Cursor.peek_before, hfirst]
      exact ⟨nofun, by simpa [TokenKind.endsBranch, TokenKind.endsStatement]⟩
  | assign hassigns =>
      rw [identifier_of_assigns hassigns later]
      exact ⟨nofun, rfl⟩
  | ifThen hfirst _ _ _ | ifElse hfirst _ _ _ _ _ _ =>
      rw [Cursor.peek_before, hfirst]
      exact ⟨nofun, rfl⟩

end Starts

/-- The parser of a phrase. -/
def phrase (room : Nat) : Phrase → Parser Statement
  | .statement => statement room
  | .branch => branch (statement room)

/-- A statement takes three rules, or there is no room for them. -/
theorem statement_read {room depth : Nat} {cursor : Cursor}
    {expected : Except ParseFailure (Statement × Cursor)}
    (hread : ∀ inner, AgreesUnless (inner < depth)
      (statement (inner + 3) cursor) expected) :
    AgreesUnless (room < depth + 3) (statement room cursor) expected := by
  rcases Nat.lt_or_ge room 3 with hshallow | hroom
  · rw [statement_shallow hshallow]
    exact agreesUnless_refuse (Nat.lt_of_lt_of_le hshallow (Nat.le_add_left 3 _))
      _ _
  · obtain ⟨inner, rfl⟩ := Nat.exists_eq_add_of_le' hroom
    exact (hread inner).weaken fun hdeep => Nat.add_lt_add_right hdeep 3

/-- Up to the branches of an IF. -/
theorem conditional_read {room depth : Nat} {first thenToken : Token}
    {front back : List Token} {condition : Expr} {later : Cursor}
    {expected : Except ParseFailure (Statement × Cursor)}
    (hfirst : first.kind = .keyword .ifWord)
    (hcondition : Rule.expression.Derives depth front condition)
    (hthen : thenToken.kind = .keyword .thenWord)
    (hbranches : AgreesUnless (room < depth)
      (branches room condition (later.before back)) expected) :
    AgreesUnless (room < depth)
      (statement (room + 3)
        (later.before (first :: (front ++ thenToken :: back)))) expected := by
  have hstops : thenToken.kind.Stops 0 :=
    hthen ▸ TokenKind.stops_of_not_isBinary rfl rfl
  have hread := expression_of_derives hcondition room
    (later.before (thenToken :: back)) hstops
  have hpeek : (later.before (first :: (front ++ thenToken :: back))).peek.kind =
      .keyword .ifWord := hfirst
  rw [statement_conditional hpeek, Cursor.skip_before, conditional]
  apply AgreesUnless.bind_before hread
  rw [demandOne_bind_read _ _ _ hthen]
  exact hbranches

theorem reads_of_phrase {kind : Phrase} {depth : Nat} {tokens : List Token}
    {body : Statement} (hbody : kind.Derives depth tokens body) (room : Nat)
    (later : Cursor) (hend : later.peek.kind.endsBranch = true)
    (helse : body.awaitsElse = true → later.peek.kind ≠ .keyword .elseWord) :
    AgreesUnless (room < depth) (phrase room kind (later.before tokens))
      (.ok (body, later)) := by
  induction hbody generalizing room later with
  | @headed depth word first tokens body hfirst hbody =>
      apply statement_read
      intro inner
      obtain ⟨hsimple, hword, -⟩ := startsSimple_of_heads hbody
      have hpeek : (later.before (first :: tokens)).peek.kind =
        .keyword word := hfirst
      rw [statement_headed hpeek hword, if_pos hsimple, Cursor.skip_before]
      exact simpleStatement_read inner hend hbody
  | assign hassigns =>
      apply statement_read
      intro inner
      rw [statement_assignment (identifier_of_assigns hassigns later)]
      exact assignment_read inner hend hassigns
  | ifThen hfirst hcondition hthen _ ih =>
      apply statement_read
      intro inner
      apply conditional_read hfirst hcondition hthen
      apply (ih inner later hend fun _ => helse rfl).bind
      rw [bind_apply, acceptKind_leave _ (helse rfl)]
      exact .refl _ _
  | @ifElse depth first thenToken elseToken front middle back _ _ _ hfirst
      hcondition hthen _ hclosed helseToken _ ihAccepted ihOtherwise =>
      apply statement_read
      intro inner
      have haccepted := ihAccepted inner (later.before (elseToken :: back))
        (by rw [Cursor.peek_before, helseToken]; rfl)
        (by rw [hclosed]; exact nofun)
      apply conditional_read hfirst hcondition hthen
      apply AgreesUnless.bind_before haccepted
      rw [bind_apply, acceptKind_read _ _ _ helseToken]
      exact (ihOtherwise inner later hend helse).map _
  | jump hnumber =>
      rw [phrase, branch, bind_apply, acceptNumeral_read hnumber.kind]
      change AgreesUnless _ ((lineNumber _ >>= _) later) _
      rw [bind_apply, lineNumber_read hnumber]
      exact .refl _ _
  | @nested depth tokens body hbody ih =>
      obtain ⟨hnumber, hbranch⟩ := starts_of_statement hbody later
      rw [phrase, branch, bind_apply, acceptNumeral_leave hnumber]
      change AgreesUnless _ ((if (later.before tokens).peek.kind.endsBranch
        then _ else _ : Parser _) _) _
      rw [hbranch]
      exact ih room later hend helse

end Parser

end NumberedBasic
