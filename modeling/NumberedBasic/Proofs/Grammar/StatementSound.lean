import NumberedBasic.Proofs.Grammar.ExpressionSound
import NumberedBasic.Proofs.Grammar.Statement
import NumberedBasic.Statement.Parser

/-!
# Statements that are read are derived

Every parser of statements answers only with what its tokens derive.  For the
branches of an IF it also matters what comes next: a statement that awaits an
ELSE has none after it.
-/

namespace NumberedBasic

namespace Parser

/-! ## Parts of statements -/

theorem isLineNumber_of_lineNumber {numeral : Token}
    (hnumeral : numeral.kind = .number) {number : Int} {cursor later : Cursor}
    (hparse : lineNumber numeral cursor = .ok (number, later)) :
    later = cursor ∧ numeral.IsLineNumber number := by
  unfold lineNumber at hparse
  split at hparse
  · cases hparse
  next hsigns =>
    split at hparse
    · cases hparse
    next hdigits =>
      unfold Text.wholeNumber? at hparse
      by_cases hlength : numeral.text.toList.length ≤ Text.longestNumeral
      · rw [if_pos hlength] at hparse
        cases hparse
        refine ⟨rfl, hnumeral, ?_, ?_, hlength, rfl⟩
        · rintro hempty
          simp [hempty] at hsigns
        · simpa using hdigits
      · rw [if_neg hlength] at hparse
        cases hparse

theorem sound_lineNumber {numeral : Token} (hnumeral : numeral.kind = .number) :
    Sound (lineNumber numeral) fun tokens number =>
      tokens = [] ∧ numeral.IsLineNumber number := by
  intro cursor later number hparse _
  obtain ⟨rfl, hnumber⟩ := isLineNumber_of_lineNumber hnumeral hparse
  exact ⟨[], rfl, rfl, hnumber⟩

theorem separates_of_separator? {kind : TokenKind} {separator : Separator}
    (hseparator : printRest.separator? kind = some separator) :
    kind.Separates separator := by
  unfold printRest.separator? at hseparator
  split at hseparator <;> cases hseparator
  · exact .comma
  · exact .semicolon

theorem sound_printRest {depth : Nat} {item : Parser Expr}
    (hitem : Sound item (Rule.expression.Derives depth)) (rounds : Nat) :
    Sound (printRest item rounds) fun tokens rest =>
      PrintRest depth tokens rest.1 rest.2.1 rest.2.2 := by
  induction rounds with
  | zero => exact sound_pure .nothing
  | succ rounds ih =>
      apply (sound_accept rfl).bind
      intro read separator? hread
      cases separator? with
      | none =>
          obtain rfl := hread
          exact sound_pure .nothing
      | some separator =>
          obtain ⟨mark, rfl, hmark⟩ := hread
          have hseparates := separates_of_separator? hmark
          apply sound_peek_bind
          intro following
          split
          · exact sound_pure (.ending hseparates)
          · apply hitem.bind
            intro front expr hexpr
            apply ih.map
            intro back rest hrest
            change PrintRest depth (mark :: (front ++ back)) _ _ _
            exact .further hseparates hexpr hrest

theorem sound_printStatement (depth : Nat) :
    Sound (printStatement depth) (Keyword.Heads depth .printWord) := by
  have hitem := (rulesSound depth).expression
  apply sound_peek_bind
  intro following
  split
  · exact sound_pure .printNothing
  · apply hitem.bind
    intro front expr hexpr
    apply sound_remaining_bind
    intro count
    apply (sound_printRest hitem count).map
    intro back rest hrest
    exact .print hexpr hrest

theorem sound_assignment (depth : Nat) :
    Sound (assignment depth) (Assigns depth) := by
  apply (rulesSound (depth + 1)).place.bind
  intro front target htarget
  refine Sound.bind (sound_demandOne _ nofun) ?_
  rintro _ equal ⟨rfl, hequal⟩
  apply (rulesSound depth).expression.map
  intro back value hvalue
  exact .intro htarget hequal hvalue

theorem sound_jump (depth : Nat) :
    Sound jump (Keyword.Heads depth .gotoWord) := by
  refine Sound.bind (sound_demandOne _ nofun) ?_
  rintro _ numeral ⟨rfl, hnumeral⟩
  apply (sound_lineNumber hnumeral).map
  rintro _ number ⟨rfl, hnumber⟩
  exact .goto hnumber

theorem sound_loop (depth : Nat) :
    Sound (loop depth) (Keyword.Heads depth .forWord) := by
  refine Sound.bind (sound_demandOne _ nofun) ?_
  rintro _ name ⟨rfl, hname⟩
  refine Sound.bind (sound_demandOne _ nofun) ?_
  rintro _ equal ⟨rfl, hequal⟩
  apply (rulesSound depth).expression.bind
  intro front start hstart
  refine Sound.bind (sound_demandOne _ nofun) ?_
  rintro _ toToken ⟨rfl, hto⟩
  apply (rulesSound depth).expression.bind
  intro middle limit hlimit
  refine Sound.bind (sound_acceptKind nofun) ?_
  intro read more hread
  cases more with
  | false =>
      obtain rfl := hread
      apply sound_pure
      simpa using Keyword.Heads.forLoop hname hequal hstart hto hlimit
  | true =>
      obtain ⟨stepToken, rfl, hby⟩ := hread
      apply (rulesSound depth).expression.map
      intro back step hstep
      exact .forStep hname hequal hstart hto hlimit hby hstep

theorem sound_name (what : Expected) : Sound (loopEnd.name what) IsName := by
  have hkind : TokenKind.identifier ≠ .endOfInput := nofun
  apply (sound_demandOne what hkind).map
  rintro _ name ⟨rfl, hname⟩
  exact .intro hname

theorem sound_loopEnd (depth : Nat) :
    Sound loopEnd (Keyword.Heads depth .nextWord) := by
  apply sound_peek_bind
  intro following
  split
  · apply (sound_commaList (sound_name _) (sound_name _)).map
    exact fun _ _ hnames => .next hnames
  · exact sound_pure .nextLatest

theorem sound_number {numeral : Token} (spells : List Token → Float → Prop)
    (hspells : ∀ x, Decimal.entireNumber? numeral.text.toList = some x →
      spells [] x) : Sound (dataItem.number numeral) spells := by
  unfold dataItem.number
  cases hx : Decimal.entireNumber? numeral.text.toList with
  | none =>
      intro cursor later x hparse _
      cases hparse
  | some x => exact sound_pure (hspells x hx)

theorem sound_dataItem : Sound dataItem DataItem := by
  apply (sound_accept rfl).bind
  intro read sign? hread
  cases sign? with
  | none =>
      obtain rfl := hread
      apply (sound_demand _ rfl).bind
      rintro _ token ⟨rfl, hkind⟩
      split
      next hstring => exact sound_pure (.text hstring)
      next hstring =>
        have hnumber : token.kind = .number := by
          simpa [hstring] using hkind
        apply (sound_number (fun tokens x => DataItem ([token] ++ tokens) (.number x))
          fun x hx => .unsigned hnumber hx).map
        exact fun _ _ hitem => hitem
  | some negative =>
      obtain ⟨sign, rfl, hsign⟩ := hread
      refine Sound.bind (sound_demandOne _ nofun) ?_
      rintro _ numeral ⟨rfl, hnumeral⟩
      apply (sound_number (fun tokens x => DataItem ([sign] ++ ([numeral] ++ tokens))
        (.number (if negative then -x else x))) _).map
      · exact fun _ _ hitem => hitem
      · intro x hx
        unfold dataItem.sign? at hsign
        split at hsign <;> cases hsign
        · exact .minus ‹_› hnumeral hx
        · exact .plus ‹_› hnumeral hx

theorem sound_restoration (depth : Nat) :
    Sound restoration (Keyword.Heads depth .restoreWord) := by
  apply sound_acceptNumeral.bind
  intro read numeral? hread
  cases numeral? with
  | none =>
      obtain rfl := hread
      exact sound_pure .restoreAll
  | some numeral =>
      obtain ⟨rfl, hnumeral⟩ := hread
      apply (sound_lineNumber hnumeral).map
      rintro _ number ⟨rfl, hnumber⟩
      exact .restore hnumber

theorem contains_opensBracket {kind : TokenKind} :
    [TokenKind.sign .leftParen, .sign .leftBracket].contains kind = true ↔
      kind.opensBracket = true := by
  rcases kind with _ | _ | _ | word | sign | _ | _
  case keyword => cases word <;> decide
  case sign => cases sign <;> decide
  all_goals decide

theorem contains_closesBracket {kind : TokenKind} :
    [TokenKind.sign .rightParen, .sign .rightBracket].contains kind = true ↔
      kind.closesBracket = true := by
  rcases kind with _ | _ | _ | word | sign | _ | _
  case keyword => cases word <;> decide
  case sign => cases sign <;> decide
  all_goals decide

theorem sound_declaration (depth : Nat) :
    Sound (declaration depth) (Declares depth) := by
  refine Sound.bind (sound_demandOne _ nofun) ?_
  rintro _ name ⟨rfl, hname⟩
  apply (sound_demand _ rfl).bind
  rintro _ opening ⟨rfl, hopening⟩
  apply (rulesSound (depth + 1)).expressionList.bind
  intro tokens bounds hbounds
  apply (sound_demand _ rfl).bind
  rintro _ closing ⟨rfl, hclosing⟩
  apply sound_pure
  exact .intro hname (contains_opensBracket.mp hopening) hbounds
    (contains_closesBracket.mp hclosing)

theorem sound_remark (depth : Nat) :
    Sound remark (Keyword.Heads depth .remWord) := by
  intro cursor later body hparse hfinal
  rw [remark, peek_bind_apply] at hparse
  split at hparse
  next hstring =>
    rw [skip_bind_apply] at hparse
    cases hparse
    exact ⟨[cursor.peek], cursor.eq_before (hstring ▸ nofun) hfinal,
      .remark hstring⟩
  next =>
    cases hparse
    exact ⟨[], rfl, .remarkNothing⟩

/-! ## Statements -/

theorem sound_unexpected {α : Type} (spells : List Token → α → Prop) :
    Sound unexpected spells := by
  intro cursor later value hparse
  cases hparse

theorem sound_simpleStatement (depth : Nat) (word : Keyword) :
    Sound (simpleStatement depth word) (word.Heads depth) := by
  have hplace := (rulesSound (depth + 1)).place
  have hdeclaration := sound_declaration depth
  cases word with
  | printWord => exact sound_printStatement depth
  | letWord =>
      exact (sound_assignment depth).imp fun _ _ hassigns => .assign hassigns
  | gotoWord => exact sound_jump depth
  | forWord => exact sound_loop depth
  | nextWord => exact sound_loopEnd depth
  | dataWord =>
      apply (sound_commaList sound_dataItem sound_dataItem).map
      exact fun _ _ hvalues => .data hvalues
  | readWord =>
      apply (sound_commaList hplace hplace).map
      exact fun _ _ htargets => .read htargets
  | restoreWord => exact sound_restoration depth
  | dimWord =>
      apply (sound_commaList hdeclaration hdeclaration).map
      exact fun _ _ harrays => .dim harrays
  | endWord => exact sound_pure .stop
  | remWord => exact sound_remark depth
  | _ => exact sound_unexpected _

theorem awaitsElse_of_heads {depth : Nat} {word : Keyword}
    {tokens : List Token} {body : Statement}
    (hbody : word.Heads depth tokens body) :
    body.awaitsElse = false := by
  cases hbody with
  | assign hassigns => cases hassigns; rfl
  | _ => rfl

/-- Whenever the parser answers, the tokens that it has read derive the
statement, which awaits no ELSE that comes next. -/
def SoundPhrase (parser : Parser Statement) (phrase : Phrase) (depth : Nat) :
    Prop :=
  ∀ ⦃cursor later : Cursor⦄ ⦃body : Statement⦄,
    parser cursor = .ok (body, later) → cursor.final.kind = .endOfInput →
    (∃ tokens, cursor = later.before tokens ∧
        phrase.Derives depth tokens body) ∧
      (body.awaitsElse = true → later.peek.kind ≠ .keyword .elseWord)

/-- What awaits no ELSE at all. -/
theorem Sound.phrase {parser : Parser Statement} {phrase : Phrase} {depth : Nat}
    {spells : List Token → Statement → Prop} (hparser : Sound parser spells)
    (hspells : ∀ tokens body, spells tokens body →
      phrase.Derives depth tokens body ∧ body.awaitsElse = false) :
    SoundPhrase parser phrase depth := by
  intro cursor later body hparse hfinal
  obtain ⟨tokens, hcursor, hbody⟩ := hparser hparse hfinal
  obtain ⟨hderives, hclosed⟩ := hspells tokens body hbody
  refine ⟨⟨tokens, hcursor, hderives⟩, ?_⟩
  rw [hclosed]
  exact nofun

theorem soundPhrase_branch {inner : Parser Statement} {depth : Nat}
    (hinner : SoundPhrase inner .statement depth) :
    SoundPhrase (branch inner) .branch depth := by
  intro cursor later body hparse hfinal
  rw [branch] at hparse
  obtain ⟨numeral?, between, haccept, hnext⟩ := exists_of_bind hparse
  obtain ⟨read, rfl, hread⟩ := sound_acceptNumeral haccept hfinal
  cases numeral? with
  | none =>
      obtain rfl := hread
      change (if between.peek.kind.endsBranch then _ else inner : Parser _)
        between = _ at hnext
      split at hnext
      · cases hnext
      · obtain ⟨⟨tokens, rfl, hderives⟩, helse⟩ := hinner hnext hfinal
        exact ⟨⟨tokens, rfl, .nested hderives⟩, helse⟩
  | some numeral =>
      obtain ⟨rfl, hnumeral⟩ := hread
      obtain ⟨number, after, hnumber, hlast⟩ := exists_of_bind hnext
      obtain ⟨rfl, hvalue⟩ := isLineNumber_of_lineNumber hnumeral hnumber
      cases hlast
      exact ⟨⟨[numeral], rfl, .jump hvalue⟩, nofun⟩

/-- The branches of an IF. -/
def branches (depth : Nat) (condition : Expr) : Parser Statement := do
  let accepted ← branch (statement depth)
  if ← acceptKind (.keyword .elseWord) then
    return .ifElse condition accepted (← branch (statement depth))
  else return .ifThen condition accepted

/-- An IF from after its first word on. -/
def conditional (depth : Nat) : Parser Statement := do
  let condition ← expression depth
  let _ ← demand [.keyword .thenWord] .thenWord
  branches depth condition

section Cases

variable {depth : Nat} {cursor : Cursor}

theorem statement_shallow (hdepth : depth < 3) :
    statement depth = refuse .nestedTooDeep := by
  match depth with
  | 0 | 1 | 2 => rfl

theorem statement_conditional (hkind : cursor.peek.kind = .keyword .ifWord) :
    statement (depth + 3) cursor = conditional depth cursor.skip := by
  rw [statement, peek_bind_apply, hkind]
  rfl

theorem statement_headed {word : Keyword} (hkind : cursor.peek.kind = .keyword word)
    (hword : word ≠ .ifWord) :
    statement (depth + 3) cursor =
      if startsSimple word then simpleStatement depth word cursor.skip
      else unexpected cursor := by
  rw [statement, peek_bind_apply, hkind]
  cases word with
  | ifWord => exact absurd rfl hword
  | _ => rfl

theorem statement_assignment (hkind : cursor.peek.kind = .identifier) :
    statement (depth + 3) cursor = assignment depth cursor := by
  rw [statement, peek_bind_apply, hkind]

theorem statement_other (hkeyword : ∀ word, cursor.peek.kind ≠ .keyword word)
    (hname : cursor.peek.kind ≠ .identifier) :
    statement (depth + 3) cursor = unexpected cursor := by
  rw [statement, peek_bind_apply]
  cases hkind : cursor.peek.kind with
  | keyword word => exact absurd hkind (hkeyword word)
  | identifier => exact absurd hkind hname
  | _ => rfl

end Cases

theorem soundPhrase_conditional {depth : Nat} {first : Token}
    (hfirst : first.kind = .keyword .ifWord)
    (hbranch : SoundPhrase (branch (statement depth)) .branch depth)
    {cursor later : Cursor} {body : Statement}
    (hparse : conditional depth cursor = .ok (body, later))
    (hfinal : cursor.final.kind = .endOfInput) :
    (∃ tokens, cursor = later.before tokens ∧
        Phrase.statement.Derives (depth + 3) (first :: tokens) body) ∧
      (body.awaitsElse = true → later.peek.kind ≠ .keyword .elseWord) := by
  obtain ⟨condition, afterCondition, hexpression, hrest⟩ := exists_of_bind hparse
  obtain ⟨front, rfl, hcondition⟩ :=
    (rulesSound depth).expression hexpression hfinal
  obtain ⟨thenToken, afterThen, hdemand, hbranches⟩ := exists_of_bind hrest
  obtain ⟨hthen, rfl⟩ := read_of_demandOne hdemand nofun hfinal
  obtain ⟨accepted, between, haccepted, hmore⟩ := exists_of_bind hbranches
  obtain ⟨⟨middle, rfl, hmiddle⟩, hawaits⟩ := hbranch haccepted hfinal
  obtain ⟨more, afterElse, helse, hlast⟩ := exists_of_bind hmore
  cases more with
  | false =>
      obtain ⟨rfl, hnone⟩ := left_of_acceptKind helse
      cases hlast
      refine ⟨⟨front ++ thenToken :: middle, by simp, ?_⟩, fun _ => hnone⟩
      exact .ifThen hfirst hcondition hthen hmiddle
  | true =>
      obtain ⟨elseToken, helseToken, rfl⟩ := read_of_acceptKind helse nofun hfinal
      have hclosed : accepted.awaitsElse = false := by
        rw [← Bool.not_eq_true]
        exact fun hopen => hawaits hopen helseToken
      obtain ⟨otherwise, last, hotherwise, hvalue⟩ := exists_of_bind hlast
      obtain ⟨⟨back, rfl, hback⟩, hawaitsBack⟩ := hbranch hotherwise hfinal
      cases hvalue
      refine ⟨⟨front ++ thenToken :: (middle ++ elseToken :: back), by simp, ?_⟩,
        hawaitsBack⟩
      exact .ifElse hfirst hcondition hthen hmiddle hclosed helseToken hback

theorem soundPhrase_statement (depth : Nat) :
    SoundPhrase (statement depth) .statement depth := by
  match depth with
  | 0 | 1 | 2 => exact fun _ _ _ hparse => nomatch hparse
  | depth + 3 =>
      intro cursor later body hparse hfinal
      have hread (hmore : cursor.peek.kind ≠ .endOfInput) :=
        cursor.eq_before hmore hfinal
      cases hkind : cursor.peek.kind with
      | identifier =>
          rw [statement_assignment hkind] at hparse
          apply (sound_assignment depth).phrase _ hparse hfinal
          intro tokens body hassigns
          exact ⟨.assign hassigns, by cases hassigns; rfl⟩
      | keyword word =>
          by_cases hword : word = .ifWord
          · rw [hword] at hkind
            rw [statement_conditional hkind] at hparse
            obtain ⟨⟨tokens, hskip, hderives⟩, helse⟩ := soundPhrase_conditional
              hkind (soundPhrase_branch (soundPhrase_statement depth)) hparse hfinal
            refine ⟨⟨cursor.peek :: tokens, ?_, hderives⟩, helse⟩
            rw [hread (hkind ▸ nofun), hskip]
            rfl
          · rw [statement_headed hkind hword] at hparse
            split at hparse
            · obtain ⟨tokens, hskip, hbody⟩ :=
                sound_simpleStatement depth word hparse hfinal
              refine ⟨⟨cursor.peek :: tokens, ?_, .headed hkind hbody⟩, ?_⟩
              · rw [hread (hkind ▸ nofun), hskip]
                rfl
              · rw [awaitsElse_of_heads hbody]
                exact nofun
            · cases hparse
      | _ =>
          rw [statement_other (by simp [hkind]) (by simp [hkind])] at hparse
          cases hparse

end Parser

end NumberedBasic
