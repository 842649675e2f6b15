import NumberedBasic.Expr.Parser
import NumberedBasic.Proofs.Parsing.Pairing

/-!
# Expressions from two cursors

Every rule for expressions reads alike from cursors that correspond.  No rule
asks for the end of a line or of the input.
-/

namespace NumberedBasic

namespace Pairing

variable {pairing : Pairing}

/-- The parser reads alike from cursors that correspond and has the same
result. -/
abbrev ReadsAlike {α : Type} (pairing : Pairing) (read : Nat)
    (parser : Parser α) : Prop :=
  pairing.Parses read parser parser (· = ·)

/-! ## Lists and chains -/

section Chains

variable {α : Type}

theorem commaRest_at_end (item : Parser α) (rounds : Nat) {cursor : Cursor}
    (hkind : cursor.peek.kind = .newline ∨ cursor.peek.kind = .endOfInput) :
    Parser.commaRest item rounds cursor = .ok ([], cursor) := by
  cases rounds with
  | zero => rfl
  | succ rounds =>
      have hcomma : cursor.peek.kind ≠ .sign .comma := by
        rcases hkind with hkind | hkind <;> rw [hkind] <;> exact nofun
      rw [Parser.commaRest, Parser.bind_apply, Parser.acceptKind_apply,
        if_neg hcomma]
      rfl

theorem outcomes_commaRest {item : Parser α} (hitem : pairing.ReadsAlike 0 item)
    {rounds rounds' : Nat} {cursor cursor' : Cursor}
    (hpaired : pairing.Paired cursor cursor')
    (hrounds : cursor.rest.length ≤ rounds)
    (hrounds' : cursor.rest.length ≤ rounds') :
    pairing.Outcomes 0 cursor (· = ·) (Parser.commaRest item rounds cursor)
      (Parser.commaRest item rounds' cursor') := by
  apply outcomes_rounds (fun rounds (_ : Unit) =>
    Parser.commaRest item rounds) (fun _ => []) _ _ rounds rounds' () cursor
      cursor' hpaired hrounds hrounds'
  · exact fun rounds _ cursor hkind => commaRest_at_end item rounds hkind
  · intro rounds rounds' ih _ cursor cursor' hpaired hrounds hrounds'
    apply Outcomes.bind (parses_acceptKind (.sign .comma) nofun nofun cursor
      cursor' hpaired)
    rintro more _ later later' haccept - rfl hlater
    cases more with
    | false => exact outcomes_leave hlater rfl
    | true =>
        obtain ⟨hcomma, rfl⟩ := Parser.later_of_acceptKind haccept
        have hlength := length_skip hpaired (hcomma ▸ nofun)
        apply Outcomes.bind (hitem cursor.skip later' hlater)
        rintro head _ after after' - hread rfl hafter
        apply Outcomes.bind (ih () after after' hafter (by omega) (by omega))
        rintro others _ last last' - - rfl hlast
        exact outcomes_leave hlast rfl

theorem readsAlike_commaList {first next : Parser α} {read : Nat}
    (hfirst : pairing.ReadsAlike read first)
    (hnext : pairing.ReadsAlike 0 next) :
    pairing.ReadsAlike read (Parser.commaList first next) := by
  intro cursor cursor' hpaired
  apply Outcomes.bind (hfirst cursor cursor' hpaired)
  rintro head _ later later' - - rfl hlater
  rw [Parser.remaining_bind_apply, Parser.remaining_bind_apply]
  apply Outcomes.bind (outcomes_commaRest hnext hlater (Nat.le_refl _)
    (pairing.length hlater))
  rintro others _ last last' - - rfl hlast
  exact outcomes_leave hlast rfl

theorem chainRest_at_end {level : List TokenKind} (hlevel : Inner level)
    (operand : Parser Expr) (rounds : Nat) (left : Expr) {cursor : Cursor}
    (hkind : cursor.peek.kind = .newline ∨ cursor.peek.kind = .endOfInput) :
    Parser.chainRest level operand rounds left cursor = .ok (left, cursor) := by
  cases rounds with
  | zero => rfl
  | succ rounds =>
      have hnone : ¬level.contains cursor.peek.kind = true := by
        rcases hkind with hkind | hkind <;> rw [hkind]
        · rw [hlevel.newline]
          exact Bool.false_ne_true
        · rw [hlevel.endOfInput]
          exact Bool.false_ne_true
      rw [Parser.chainRest, Parser.bind_apply, Parser.acceptAny_apply,
        if_neg hnone]
      rfl

theorem outcomes_chainRest {level : List TokenKind} (hlevel : Inner level)
    {operand : Parser Expr} (hoperand : pairing.ReadsAlike 0 operand)
    {rounds rounds' : Nat} (left : Expr) {cursor cursor' : Cursor}
    (hpaired : pairing.Paired cursor cursor')
    (hrounds : cursor.rest.length ≤ rounds)
    (hrounds' : cursor.rest.length ≤ rounds') :
    pairing.Outcomes 0 cursor (· = ·)
      (Parser.chainRest level operand rounds left cursor)
      (Parser.chainRest level operand rounds' left cursor') := by
  apply outcomes_rounds (Parser.chainRest level operand) id _ _
    rounds rounds' left cursor cursor' hpaired hrounds hrounds'
  · exact fun rounds left cursor hkind =>
      chainRest_at_end hlevel operand rounds left hkind
  · intro rounds rounds' ih left cursor cursor' hpaired hrounds hrounds'
    apply Outcomes.bind (parses_acceptAny hlevel cursor cursor' hpaired)
    intro token? token?' later later' haccept _ htokens hlater
    cases htokens with
    | none => exact outcomes_leave hlater rfl
    | @some token token' htoken =>
        obtain ⟨hoperator, rfl⟩ := Parser.later_of_acceptAny haccept
        have hlength := length_skip hpaired (hlevel.ne_endOfInput hoperator)
        apply Outcomes.bind (hoperand cursor.skip later' hlater)
        rintro right _ after after' - hread rfl hafter
        rw [htoken]
        exact ih _ after after' hafter (by omega) (by omega)

theorem readsAlike_chain {level : List TokenKind} (hlevel : Inner level)
    {operand : Parser Expr} (hoperand : pairing.ReadsAlike 0 operand) :
    pairing.ReadsAlike 0 (Parser.chain level operand) := by
  apply Parses.bind_eq hoperand
  intro left cursor cursor' hpaired
  exact outcomes_chainRest hlevel hoperand left hpaired (Nat.le_refl _)
    (pairing.length hpaired)

end Chains

/-! ## Rules that nest -/

theorem inner_of_mem_operatorLevels :
    ∀ level ∈ Parser.operatorLevels, Inner level := by
  intro level hlevel
  simp only [Parser.operatorLevels, List.mem_cons, List.not_mem_nil,
    or_false] at hlevel
  rcases hlevel with rfl | rfl | rfl | rfl | rfl | rfl <;> exact ⟨rfl, rfl⟩

theorem parses_numeral {token token' : Token}
    (htoken : pairing.Below token token') :
    pairing.Parses 0 (Parser.numeral token) (Parser.numeral token') (· = ·) := by
  rw [htoken, Parser.numeral, Parser.numeral, Token.text_down]
  split
  · exact Parses.pure rfl
  · exact Parses.throw .unreadableNumeral

theorem readsAlike_variableName :
    pairing.ReadsAlike 1 Parser.variableName := by
  apply Parses.bind (parses_demand ⟨rfl, rfl⟩ .variableName)
  intro token token' htoken
  rw [htoken]
  exact Parses.pure rfl

theorem inner_of_closing {kind closing : TokenKind}
    (hclosing : Parser.closing? kind = some closing) : Inner [closing] := by
  unfold Parser.closing? at hclosing
  split at hclosing <;> cases hclosing <;> exact ⟨rfl, rfl⟩

/-- The rules with a depth all read alike. -/
structure RulesReadAlike (pairing : Pairing) (depth : Nat) : Prop where
  expression : pairing.ReadsAlike 0 (Parser.expression depth)
  chains : ∀ ⦃levels⦄, (∀ level ∈ levels, Inner level) →
    pairing.ReadsAlike 0 (Parser.chains depth levels)
  prefixed : pairing.ReadsAlike 0 (Parser.prefixed depth)
  power : pairing.ReadsAlike 0 (Parser.power depth)
  primary : pairing.ReadsAlike 0 (Parser.primary depth)
  place : pairing.ReadsAlike 1 (Parser.place depth)
  expressionList : pairing.ReadsAlike 0 (Parser.expressionList depth)

namespace RulesReadAlike

variable {depth : Nat} (hrules : pairing.RulesReadAlike depth)

include hrules

theorem chains_succ {levels : List (List TokenKind)}
    (hlevels : ∀ level ∈ levels, Inner level) :
    pairing.ReadsAlike 0 (Parser.chains (depth + 1) levels) := by
  cases levels with
  | nil => exact hrules.prefixed
  | cons level tighter =>
      apply readsAlike_chain (hlevels level List.mem_cons_self)
      exact hrules.chains fun other hother =>
        hlevels other (List.mem_cons_of_mem _ hother)

theorem prefixed_succ : pairing.ReadsAlike 0 (Parser.prefixed (depth + 1)) := by
  apply Parses.bind (parses_acceptAny ⟨rfl, rfl⟩)
  intro token? token?' htokens
  cases htokens with
  | none => exact hrules.power
  | some htoken =>
      rw [htoken]
      exact Parses.map_eq hrules.prefixed _

theorem power_succ : pairing.ReadsAlike 0 (Parser.power (depth + 1)) := by
  apply Parses.bind_eq hrules.primary
  intro base
  apply Parses.bind (parses_acceptAny ⟨rfl, rfl⟩)
  intro token? token?' htokens
  cases htokens with
  | none => exact Parses.pure rfl
  | some htoken =>
      rw [htoken]
      exact Parses.map_eq hrules.prefixed _

/-- What follows an opening bracket. -/
theorem grouped : pairing.ReadsAlike 0 (do
    let inner ← Parser.expression depth
    let _ ← Parser.demand [.sign .rightParen] .closingParen
    return inner) := by
  apply Parses.bind_eq hrules.expression
  intro inner
  exact parses_demandThen ⟨rfl, rfl⟩ _ (Parses.pure rfl)

theorem primary_succ : pairing.ReadsAlike 0 (Parser.primary (depth + 1)) := by
  intro cursor cursor' hpaired
  rw [Parser.primary, Parser.peek_bind_apply, Parser.peek_bind_apply]
  rcases pairing.peek hpaired with hpeek | ⟨hmore, hend, -⟩
  · rw [hpeek, Token.kind_down]
    cases hkind : cursor.peek.kind with
    | number =>
        dsimp only
        rw [Parser.skip_bind_apply, Parser.skip_bind_apply]
        exact outcomes_skip hpaired (hkind ▸ nofun) (parses_numeral rfl)
          (Nat.zero_le 1)
    | string =>
        dsimp only
        rw [Parser.skip_bind_apply, Parser.skip_bind_apply]
        exact outcomes_skip hpaired (hkind ▸ nofun) (Parses.pure rfl)
          (Nat.zero_le 1)
    | identifier =>
        have hplace := hrules.place.weaken (Nat.zero_le 1)
        exact Parses.map_eq hplace _ cursor cursor' hpaired
    | sign sign =>
        cases sign with
        | leftParen =>
            dsimp only
            rw [Parser.skip_bind_apply, Parser.skip_bind_apply]
            exact outcomes_skip hpaired (hkind ▸ nofun) hrules.grouped
              (Nat.zero_le 1)
        | _ => exact parses_unexpected cursor cursor' hpaired
    | _ => exact parses_unexpected cursor cursor' hpaired
  · rw [hend]
    exact .goesOn hmore

theorem place_succ : pairing.ReadsAlike 1 (Parser.place (depth + 1)) := by
  apply Parses.bind_eq readsAlike_variableName
  intro name cursor cursor' hpaired
  apply Outcomes.bind (parses_accept rfl rfl cursor cursor' hpaired)
  rintro closing? _ later later' haccept - rfl hlater
  cases closing? with
  | none => exact outcomes_leave hlater rfl
  | some closing =>
      have hinner := inner_of_closing (Parser.later_of_accept haccept).1
      apply Parses.bind_eq hrules.expressionList _ later later' hlater
      intro indices
      exact parses_demandThen hinner _ (Parses.pure rfl)

end RulesReadAlike

theorem rulesReadAlike (pairing : Pairing) (depth : Nat) :
    pairing.RulesReadAlike depth := by
  induction depth with
  | zero =>
      exact ⟨parses_refuse _, fun _ _ => parses_refuse _, parses_refuse _,
        parses_refuse _, parses_refuse _, parses_refuse _, parses_refuse _⟩
  | succ depth ih =>
      exact {
        expression := ih.chains inner_of_mem_operatorLevels
        chains := fun _ hlevels => ih.chains_succ hlevels
        prefixed := ih.prefixed_succ
        power := ih.power_succ
        primary := ih.primary_succ
        place := ih.place_succ
        expressionList := readsAlike_commaList ih.expression ih.expression }

end Pairing

end NumberedBasic
