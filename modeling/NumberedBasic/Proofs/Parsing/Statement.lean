import NumberedBasic.Proofs.Parsing.Expression
import NumberedBasic.Statement.Parser

/-!
# Statements from two cursors

Every rule for statements reads alike from cursors that correspond: where a
statement may end, the end of a line and the end of input are the same to it.
-/

namespace NumberedBasic

namespace Pairing

variable {pairing : Pairing}

/-- A look at the next token that does not tell the end of a line from the
end of input decides alike. -/
theorem readsAlike_ite {α : Type} {read : Nat} (condition : TokenKind → Prop)
    [DecidablePred condition]
    (hends : condition .newline ↔ condition .endOfInput)
    {first second : Parser α} (hfirst : pairing.ReadsAlike read first)
    (hsecond : pairing.ReadsAlike read second) :
    pairing.ReadsAlike read
      (do if condition (← Parser.peek).kind then first else second) := by
  intro cursor cursor' hpaired
  have hsame := same_of_peek hpaired (fun kind => decide (condition kind))
    (decide_eq_decide.mpr hends)
  rw [decide_eq_decide] at hsame
  rw [Parser.peek_bind_apply, Parser.peek_bind_apply]
  by_cases hcondition : condition cursor.peek.kind
  · rw [if_pos hcondition, if_pos (hsame.mpr hcondition)]
    exact hfirst cursor cursor' hpaired
  · rw [if_neg hcondition, if_neg fun h => hcondition (hsame.mp h)]
    exact hsecond cursor cursor' hpaired

theorem parses_lineNumber {token token' : Token}
    (htoken : pairing.Below token token') :
    pairing.Parses 0 (Parser.lineNumber token) (Parser.lineNumber token')
      (· = ·) := by
  rw [htoken, Parser.lineNumber, Parser.lineNumber, Token.text_down]
  split
  · exact parses_refuse _
  · split
    · exact Parses.throw .unreadableNumeral
    · split
      · exact Parses.pure rfl
      · exact Parses.throw .unreadableNumeral

/-! ## Single statements -/

section Statements

variable (depth : Nat)

theorem printRest_at_end (item : Parser Expr) (rounds : Nat) {cursor : Cursor}
    (hkind : cursor.peek.kind = .newline ∨ cursor.peek.kind = .endOfInput) :
    Parser.printRest item rounds cursor = .ok (([], [], none), cursor) := by
  cases rounds with
  | zero => rfl
  | succ rounds =>
      have hnone : Parser.printRest.separator? cursor.peek.kind = none := by
        rcases hkind with hkind | hkind <;> rw [hkind] <;> rfl
      rw [Parser.printRest, Parser.bind_apply, Parser.accept_apply, hnone]
      rfl

theorem outcomes_printRest {item : Parser Expr}
    (hitem : pairing.ReadsAlike 0 item) {rounds rounds' : Nat}
    {cursor cursor' : Cursor} (hpaired : pairing.Paired cursor cursor')
    (hrounds : cursor.rest.length ≤ rounds)
    (hrounds' : cursor.rest.length ≤ rounds') :
    pairing.Outcomes 0 cursor (· = ·) (Parser.printRest item rounds cursor)
      (Parser.printRest item rounds' cursor') := by
  apply outcomes_rounds (fun rounds (_ : Unit) =>
    Parser.printRest item rounds) (fun _ => ([], [], none)) _ _ rounds rounds'
      () cursor cursor' hpaired hrounds hrounds'
  · exact fun rounds _ cursor hkind => printRest_at_end item rounds hkind
  · intro rounds rounds' ih _ cursor cursor' hpaired hrounds hrounds'
    apply Outcomes.bind (parses_accept rfl rfl cursor cursor' hpaired)
    rintro separator? _ later later' haccept - rfl hlater
    cases separator? with
    | none => exact outcomes_leave hlater rfl
    | some separator =>
        obtain ⟨hseparator, rfl⟩ := Parser.later_of_accept haccept
        have hlength := length_skip hpaired fun hend => by
          rw [hend] at hseparator
          cases hseparator
        have hends := same_of_peek hlater TokenKind.endsBranch rfl
        dsimp only
        rw [Parser.peek_bind_apply, Parser.peek_bind_apply, hends]
        split
        · exact outcomes_leave hlater rfl
        · apply Outcomes.bind (hitem cursor.skip later' hlater)
          rintro head _ after after' - hread rfl hafter
          apply Outcomes.bind (ih () after after' hafter (by omega) (by omega))
          rintro ⟨separators, items, ending⟩ _ last last' - - rfl hlast
          exact outcomes_leave hlast rfl

theorem readsAlike_printStatement :
    pairing.ReadsAlike 0 (Parser.printStatement depth) := by
  have hexpression := (pairing.rulesReadAlike depth).expression
  apply readsAlike_ite (fun kind => kind.endsBranch = true) Iff.rfl
  · exact Parses.pure rfl
  · apply Parses.bind_eq hexpression
    intro head cursor cursor' hpaired
    rw [Parser.remaining_bind_apply, Parser.remaining_bind_apply]
    apply Outcomes.bind (outcomes_printRest hexpression hpaired
      (Nat.le_refl _) (pairing.length hpaired))
    rintro rest _ later later' - - rfl hlater
    exact outcomes_leave hlater rfl

theorem readsAlike_assignment :
    pairing.ReadsAlike 1 (Parser.assignment depth) := by
  apply Parses.bind_eq (pairing.rulesReadAlike (depth + 1)).place
  intro target
  apply parses_demandThen ⟨rfl, rfl⟩
  exact Parses.map_eq (pairing.rulesReadAlike depth).expression _

theorem readsAlike_jump : pairing.ReadsAlike 0 Parser.jump := by
  apply Parses.andThen (parses_demand ⟨rfl, rfl⟩ _)
  intro token token' htoken
  exact Parses.map_eq (parses_lineNumber htoken) _

theorem readsAlike_loop : pairing.ReadsAlike 0 (Parser.loop depth) := by
  have hexpression := (pairing.rulesReadAlike depth).expression
  apply Parses.andThen (parses_demand ⟨rfl, rfl⟩ _)
  rintro token _ rfl
  apply parses_demandThen ⟨rfl, rfl⟩
  apply Parses.bind_eq hexpression
  intro start
  apply parses_demandThen ⟨rfl, rfl⟩
  apply Parses.bind_eq hexpression
  intro stop
  apply Parses.bind_eq (parses_acceptKind (.keyword .stepWord) nofun nofun)
  intro more
  cases more with
  | false => exact Parses.pure rfl
  | true =>
      exact Parses.map_eq hexpression _

theorem readsAlike_name (what : Expected) :
    pairing.ReadsAlike 0 (Parser.loopEnd.name what) := by
  apply Parses.andThen (parses_demand ⟨rfl, rfl⟩ _)
  rintro token _ rfl
  exact Parses.pure rfl

theorem readsAlike_loopEnd : pairing.ReadsAlike 0 Parser.loopEnd := by
  apply readsAlike_ite (fun kind => kind = .identifier)
    ⟨nofun, nofun⟩
  · exact Parses.map_eq (readsAlike_commaList (readsAlike_name .loopVariable)
      (readsAlike_name .listedVariable)) _
  · exact Parses.pure rfl

theorem parses_number {token token' : Token}
    (htoken : pairing.Below token token') :
    pairing.Parses 0 (Parser.dataItem.number token)
      (Parser.dataItem.number token') (· = ·) := by
  rw [htoken, Parser.dataItem.number, Parser.dataItem.number, Token.text_down]
  split
  · exact Parses.pure rfl
  · exact Parses.throw .unreadableNumeral

theorem readsAlike_dataItem : pairing.ReadsAlike 0 Parser.dataItem := by
  apply Parses.bind (parses_accept rfl rfl)
  rintro negative? _ rfl
  cases negative? with
  | some negative =>
      apply Parses.andThen (parses_demand ⟨rfl, rfl⟩ _)
      intro token token' htoken
      exact Parses.map_eq (parses_number htoken) _
  | none =>
      apply Parses.andThen (parses_demand ⟨rfl, rfl⟩ _)
      intro token token' htoken
      rw [htoken, Token.kind_down, Token.text_down]
      split
      · exact Parses.pure rfl
      · exact Parses.map_eq (parses_number rfl) _

theorem readsAlike_restoration : pairing.ReadsAlike 0 Parser.restoration := by
  apply Parses.bind (parses_acceptAny ⟨rfl, rfl⟩)
  intro token? token?' htokens
  cases htokens with
  | none => exact Parses.pure rfl
  | some htoken =>
      exact Parses.map_eq (parses_lineNumber htoken) _

theorem readsAlike_declaration :
    pairing.ReadsAlike 0 (Parser.declaration depth) := by
  apply Parses.andThen (parses_demand ⟨rfl, rfl⟩ _)
  rintro token _ rfl
  apply parses_demandThen ⟨rfl, rfl⟩
  apply Parses.bind_eq (pairing.rulesReadAlike (depth + 1)).expressionList
  intro bounds
  apply parses_demandThen ⟨rfl, rfl⟩
  exact Parses.pure rfl

theorem readsAlike_remark : pairing.ReadsAlike 0 Parser.remark := by
  intro cursor cursor' hpaired
  rw [Parser.remark, Parser.peek_bind_apply, Parser.peek_bind_apply]
  by_cases hstring : cursor.peek.kind = .string
  · have hpeek := peek_of_kind hpaired (hstring ▸ nofun)
    have hstring' : (cursor.peek.down pairing.lines).kind = .string := hstring
    rw [hpeek, if_pos hstring, if_pos hstring', Parser.skip_bind_apply,
      Parser.skip_bind_apply]
    exact outcomes_skip hpaired (hstring ▸ nofun) (Parses.pure rfl)
      (Nat.zero_le 1)
  · have hsame := same_of_peek hpaired (fun kind => decide (kind = .string)) rfl
    have hstring' : cursor'.peek.kind ≠ .string := by
      simpa [hstring] using hsame
    rw [if_neg hstring, if_neg hstring']
    exact outcomes_leave hpaired rfl

theorem readsAlike_simpleStatement (word : Keyword) :
    pairing.ReadsAlike 0 (Parser.simpleStatement depth word) := by
  have hplace :=
    (pairing.rulesReadAlike (depth + 1)).place.weaken (Nat.zero_le 1)
  cases word with
  | printWord => exact readsAlike_printStatement depth
  | letWord => exact (readsAlike_assignment depth).weaken (Nat.zero_le 1)
  | gotoWord => exact readsAlike_jump
  | forWord => exact readsAlike_loop depth
  | nextWord => exact readsAlike_loopEnd
  | dataWord =>
      exact Parses.map_eq
        (readsAlike_commaList readsAlike_dataItem readsAlike_dataItem) _
  | readWord =>
      exact Parses.map_eq (readsAlike_commaList hplace hplace) _
  | restoreWord => exact readsAlike_restoration
  | dimWord =>
      exact Parses.map_eq (readsAlike_commaList (readsAlike_declaration depth)
        (readsAlike_declaration depth)) _
  | endWord => exact Parses.pure rfl
  | remWord => exact readsAlike_remark
  | _ => exact parses_unexpected

theorem readsAlike_branch {inner : Parser Statement}
    (hinner : pairing.ReadsAlike 0 inner) :
    pairing.ReadsAlike 0 (Parser.branch inner) := by
  apply Parses.bind (parses_acceptAny ⟨rfl, rfl⟩)
  intro token? token?' htokens
  cases htokens with
  | some htoken =>
      exact Parses.map_eq (parses_lineNumber htoken) _
  | none =>
      exact readsAlike_ite (fun kind => kind.endsBranch = true) Iff.rfl
        (parses_refuse _) hinner

/-- What follows the word IF. -/
theorem readsAlike_ifStatement {inner : Parser Statement}
    (hinner : pairing.ReadsAlike 0 inner) :
    pairing.ReadsAlike 0 (do
      let condition ← Parser.expression depth
      let _ ← Parser.demand [.keyword .thenWord] .thenWord
      let thenBranch ← Parser.branch inner
      if ← Parser.acceptKind (.keyword .elseWord) then
        return Statement.ifElse condition thenBranch (← Parser.branch inner)
      else return Statement.ifThen condition thenBranch) := by
  apply Parses.bind_eq (pairing.rulesReadAlike depth).expression
  intro condition
  apply parses_demandThen ⟨rfl, rfl⟩
  apply Parses.bind_eq (readsAlike_branch hinner)
  intro thenBranch
  apply Parses.bind_eq (parses_acceptKind (.keyword .elseWord) nofun nofun)
  intro more
  cases more with
  | false => exact Parses.pure rfl
  | true =>
      exact Parses.map_eq (readsAlike_branch hinner) _

/-- A statement reads a token at least. -/
theorem readsAlike_statement (depth : Nat) :
    pairing.ReadsAlike 1 (Parser.statement depth) := by
  match depth with
  | 0 | 1 | 2 => exact parses_refuse _
  | depth + 3 =>
      have hinner := readsAlike_statement depth
      intro cursor cursor' hpaired
      rw [Parser.statement, Parser.peek_bind_apply, Parser.peek_bind_apply]
      rcases pairing.peek hpaired with hpeek | ⟨hmore, hend, -⟩
      · rw [hpeek, Token.kind_down]
        cases hkind : cursor.peek.kind with
        | identifier => exact readsAlike_assignment depth cursor cursor' hpaired
        | keyword word =>
            cases word
            case ifWord =>
              dsimp only
              rw [Parser.skip_bind_apply, Parser.skip_bind_apply]
              exact outcomes_skip hpaired (hkind ▸ nofun)
                (readsAlike_ifStatement depth (hinner.weaken (Nat.zero_le 1)))
                (Nat.le_refl 1)
            all_goals
              dsimp only
              split
              · rw [Parser.skip_bind_apply, Parser.skip_bind_apply]
                exact outcomes_skip hpaired (hkind ▸ nofun)
                  (readsAlike_simpleStatement depth _) (Nat.le_refl 1)
              · exact parses_unexpected cursor cursor' hpaired
        | _ => exact parses_unexpected cursor cursor' hpaired
      · rw [hend]
        exact .goesOn hmore

end Statements

end Pairing

end NumberedBasic
