import NumberedBasic.Expr.Parser
import NumberedBasic.Proofs.Grammar.Expression
import NumberedBasic.Proofs.Grammar.Reading

/-!
# Expressions that are read are derived

Every rule of the parser answers only with what the grammar derives from the
tokens that it has read, within the depth of the rule.  The proof goes over
that depth.
-/

namespace NumberedBasic

namespace Parser

open Rule

/-! ## Chains of operators -/

/-- A level of operators holds those of one rank. -/
def IsLevel (level : List TokenKind) (rank : Nat) : Prop :=
  ∀ kind, level.contains kind = true ↔ kind.rank? = some rank

theorem IsLevel.endOfInput {level : List TokenKind} {rank : Nat}
    (hlevel : IsLevel level rank) : level.contains .endOfInput = false := by
  rw [← Bool.not_eq_true, hlevel]
  exact nofun

/-- What stands on the left takes in one operand after another. -/
theorem sound_chainRest {level : List TokenKind} {rank depth : Nat}
    {operand : Parser Expr} (hlevel : IsLevel level rank)
    (hoperand : Sound operand (Derives (.chain (rank + 1)) depth)) (rounds : Nat)
    {front : List Token} {left : Expr}
    (hleft : Derives (.chain rank) (depth + 1) front left) :
    Sound (chainRest level operand rounds left) fun back value =>
      Derives (.chain rank) (depth + 1) (front ++ back) value := by
  induction rounds generalizing front left with
  | zero => exact sound_pure ((List.append_nil front).symm ▸ hleft)
  | succ rounds ih =>
      apply (sound_acceptAny hlevel.endOfInput).bind
      intro read token? hread
      cases token? with
      | none =>
          obtain rfl := hread
          exact sound_pure ((List.append_nil front).symm ▸ hleft)
      | some token =>
          obtain ⟨rfl, htoken⟩ := hread
          apply hoperand.bind
          intro middle right hright
          apply (ih (hleft.infixed ((hlevel _).mp htoken) hright)).imp
          intro back value hvalue
          simpa using hvalue

theorem sound_chain {level : List TokenKind} {rank depth : Nat}
    {operand : Parser Expr} (hrank : rank < 6) (hlevel : IsLevel level rank)
    (hoperand : Sound operand (Derives (.chain (rank + 1)) depth)) :
    Sound (chain level operand) (Derives (.chain rank) (depth + 1)) := by
  apply hoperand.bind
  intro front left hleft
  apply sound_remaining_bind
  exact fun count => sound_chainRest hlevel hoperand count (.higher hrank hleft)

/-- Levels of operators, one for each rank from the given one on. -/
inductive Levels : Nat → List (List TokenKind) → Prop where
  | highest : Levels 6 []
  | cons {rank : Nat} {level : List TokenKind} {tighter : List (List TokenKind)}
      (hrank : rank < 6) (hlevel : IsLevel level rank)
      (htighter : Levels (rank + 1) tighter) : Levels rank (level :: tighter)

theorem levels_operatorLevels : Levels 0 operatorLevels := by
  have hlevel : ∀ graded ∈ operatorLevels.zipIdx, IsLevel graded.1 graded.2 := by
    intro graded hgraded kind
    revert graded
    rcases kind with _ | _ | _ | word | sign | _ | _
    case keyword => cases word <;> decide
    case sign => cases sign <;> decide
    all_goals decide
  refine .cons (by decide) (hlevel (_, 0) (by decide)) ?_
  refine .cons (by decide) (hlevel (_, 1) (by decide)) ?_
  refine .cons (by decide) (hlevel (_, 2) (by decide)) ?_
  refine .cons (by decide) (hlevel (_, 3) (by decide)) ?_
  refine .cons (by decide) (hlevel (_, 4) (by decide)) ?_
  exact .cons (by decide) (hlevel (_, 5) (by decide)) .highest

/-! ## Rules that nest -/

theorem sound_numeral {numeral : Token} (hnumeral : numeral.kind = .number)
    {cursor later : Cursor} {value : Expr}
    (hparse : Parser.numeral numeral cursor = .ok (value, later)) :
    later = cursor ∧ ∀ depth, Derives .primary (depth + 1) [numeral] value := by
  cases hx : Decimal.entireNumber? numeral.text.toList with
  | none =>
      simp only [Parser.numeral, hx] at hparse
      cases hparse
  | some x =>
      simp only [Parser.numeral, hx] at hparse
      cases hparse
      exact ⟨rfl, fun _ => .number hnumeral hx⟩

theorem sound_variableName :
    Sound variableName fun tokens text => ∃ name : Token,
      tokens = [name] ∧ name.kind = .identifier ∧ text = name.text := by
  have hkind : TokenKind.identifier ≠ .endOfInput := nofun
  apply (sound_demandOne _ hkind).map
  rintro _ name ⟨rfl, hname⟩
  exact ⟨name, rfl, hname, rfl⟩

theorem brackets_of_closing? {kind closing : TokenKind}
    (hclosing : closing? kind = some closing) :
    TokenKind.Brackets kind closing := by
  unfold closing? at hclosing
  split at hclosing
  · cases hclosing
    exact .round
  · cases hclosing
    exact .square
  · cases hclosing

theorem ne_endOfInput_of_brackets {opening closing : TokenKind}
    (hbrackets : TokenKind.Brackets opening closing) : closing ≠ .endOfInput := by
  cases hbrackets <;> exact nofun

theorem prefixOps_contains {kind : TokenKind} :
    prefixOps.contains kind = true ↔ kind.isUnary = true := by
  rcases kind with _ | _ | _ | word | sign | _ | _
  case keyword => cases word <;> decide
  case sign => cases sign <;> decide
  all_goals decide

/-- The rules of a depth are all sound. -/
structure RulesSound (depth : Nat) : Prop where
  expression : Sound (Parser.expression depth) (Derives .expression depth)
  chains : ∀ ⦃rank levels⦄, Levels rank levels →
    Sound (Parser.chains depth levels) (Derives (.chain rank) depth)
  prefixed : Sound (Parser.prefixed depth) (Derives .prefixed depth)
  power : Sound (Parser.power depth) (Derives .power depth)
  primary : Sound (Parser.primary depth) (Derives .primary depth)
  place : Sound (Parser.place depth) (Derives .place depth)
  expressionList : Sound (Parser.expressionList depth) (Derives .listed depth)

namespace RulesSound

variable {depth : Nat} (hrules : RulesSound depth)

include hrules

theorem expression_succ :
    Sound (Parser.expression (depth + 1)) (Derives .expression (depth + 1)) :=
  (hrules.chains levels_operatorLevels).imp fun _ _ hexpr => .entered hexpr

theorem chains_succ {rank : Nat} {levels : List (List TokenKind)}
    (hlevels : Levels rank levels) :
    Sound (Parser.chains (depth + 1) levels)
      (Derives (.chain rank) (depth + 1)) := by
  cases hlevels with
  | highest => exact hrules.prefixed.imp fun _ _ hexpr => .operand hexpr
  | cons hrank hlevel htighter =>
      exact sound_chain hrank hlevel (hrules.chains htighter)

theorem prefixed_succ :
    Sound (Parser.prefixed (depth + 1)) (Derives .prefixed (depth + 1)) := by
  apply (sound_acceptAny rfl).bind
  intro read token? hread
  cases token? with
  | none =>
      obtain rfl := hread
      exact hrules.power.imp fun _ _ hpower => .unsigned hpower
  | some token =>
      obtain ⟨rfl, htoken⟩ := hread
      apply hrules.prefixed.map
      intro tokens operand hoperand
      exact .signed (prefixOps_contains.mp htoken) hoperand

theorem power_succ :
    Sound (Parser.power (depth + 1)) (Derives .power (depth + 1)) := by
  apply hrules.primary.bind
  intro front base hbase
  apply (sound_acceptAny rfl).bind
  intro read token? hread
  cases token? with
  | none =>
      obtain rfl := hread
      exact sound_pure ((List.append_nil front).symm ▸ .unraised hbase)
  | some caret =>
      obtain ⟨rfl, hcaret⟩ := hread
      apply hrules.prefixed.map
      intro back exponent hexponent
      exact .raised hbase (by simpa using hcaret) hexponent

/-- What follows an opening parenthesis. -/
theorem grouped {opening : Token} (hopening : opening.kind = .sign .leftParen) :
    Sound
      (do
        let inner ← Parser.expression depth
        let _ ← demand [.sign .rightParen] .closingParen
        return inner)
      fun tokens value =>
        Derives .primary (depth + 1) (opening :: tokens) value := by
  apply hrules.expression.bind
  intro tokens inner hinner
  refine Sound.bind (sound_demandOne _ nofun) ?_
  rintro _ closing ⟨rfl, hclosing⟩
  exact sound_pure (.grouped hopening hinner hclosing)

theorem primary_succ :
    Sound (Parser.primary (depth + 1)) (Derives .primary (depth + 1)) := by
  intro cursor later value hparse hfinal
  rw [Parser.primary, peek_bind_apply] at hparse
  have hread (hmore : cursor.peek.kind ≠ .endOfInput) :=
    cursor.eq_before hmore hfinal
  cases hkind : cursor.peek.kind with
  | number =>
      rw [hkind] at hparse
      dsimp only at hparse
      rw [skip_bind_apply] at hparse
      obtain ⟨rfl, hderives⟩ := sound_numeral hkind hparse
      exact ⟨[cursor.peek], hread (hkind ▸ nofun), hderives depth⟩
  | string =>
      rw [hkind] at hparse
      cases hparse
      exact ⟨[cursor.peek], hread (hkind ▸ nofun), .text hkind⟩
  | identifier =>
      rw [hkind] at hparse
      obtain ⟨target, between, htarget, hlast⟩ := exists_of_bind hparse
      obtain ⟨tokens, rfl, hderives⟩ := hrules.place htarget hfinal
      cases hlast
      exact ⟨tokens, rfl, .reference hderives⟩
  | sign sign =>
      rw [hkind] at hparse
      cases sign with
      | leftParen =>
          dsimp only at hparse
          rw [skip_bind_apply] at hparse
          obtain ⟨tokens, hskip, hderives⟩ := hrules.grouped hkind hparse hfinal
          refine ⟨cursor.peek :: tokens, ?_, hderives⟩
          rw [hread (hkind ▸ nofun), hskip]
          rfl
      | _ => cases hparse
  | _ =>
      rw [hkind] at hparse
      cases hparse

theorem place_succ :
    Sound (Parser.place (depth + 1)) (Derives .place (depth + 1)) := by
  apply sound_variableName.bind
  rintro _ _ ⟨name, rfl, hname, rfl⟩
  apply (sound_accept rfl).bind
  intro read closing? hread
  cases closing? with
  | none =>
      obtain rfl := hread
      exact sound_pure (.scalar hname)
  | some closing =>
      obtain ⟨opening, rfl, hopening⟩ := hread
      have hbrackets := brackets_of_closing? hopening
      apply hrules.expressionList.bind
      intro tokens indices hindices
      apply (sound_demandOne _ (ne_endOfInput_of_brackets hbrackets)).bind
      rintro _ closed ⟨rfl, hclosed⟩
      exact sound_pure (.element hname hindices (hclosed ▸ hbrackets))

theorem expressionList_succ :
    Sound (Parser.expressionList (depth + 1)) (Derives .listed (depth + 1)) := by
  apply (sound_commaList hrules.expression hrules.expression).imp
  exact fun _ _ hseparated => derives_listed hseparated

end RulesSound

theorem rulesSound (depth : Nat) : RulesSound depth := by
  induction depth with
  | zero =>
      exact ⟨sound_refuse _ _, fun _ _ _ => sound_refuse _ _, sound_refuse _ _,
        sound_refuse _ _, sound_refuse _ _, sound_refuse _ _, sound_refuse _ _⟩
  | succ depth ih =>
      exact {
        expression := ih.expression_succ
        chains := fun _ _ hlevels => ih.chains_succ hlevels
        prefixed := ih.prefixed_succ
        power := ih.power_succ
        primary := ih.primary_succ
        place := ih.place_succ
        expressionList := ih.expressionList_succ }

end Parser

end NumberedBasic
