import NumberedBasic.Proofs.Grammar.ExpressionComplete
import NumberedBasic.Proofs.Refusal.Pinpoint
import NumberedBasic.Proofs.Token.Numeral

/-!
# The token to blame in an expression

Every rule for expressions pinpoints its failures.  Where one is expected and
missing, a string would do, and a closing bracket where that is missing.  What
completes a rule may go deeper than there is room for, by up to twelve rules:
that many take a list of one string.
-/

namespace NumberedBasic

/-- The digit has a value. -/
theorem exists_entireNumber_sample :
    ∃ x, Decimal.entireNumber? TokenKind.number.sample.text.toList = some x :=
  Decimal.exists_entireNumber? (.whole (List.forall_mem_singleton.mpr rfl))

namespace Parser

open Rule

/-! ## Tokens that complete a rule -/

section Samples

variable {depth : Nat}

theorem derives_primary_sample :
    Derives .primary (depth + 1) [TokenKind.string.sample] (.text "") := .text rfl

theorem derives_sample :
    Derives .expression (depth + 11) [TokenKind.string.sample] (.text "") :=
  derives_of_primary derives_primary_sample

theorem derives_chain_sample {rank : Nat} {levels : List (List TokenKind)}
    (hlevels : Levels rank levels) :
    Derives (.chain rank) (levels.length + 4) [TokenKind.string.sample]
      (.text "") := by
  induction hlevels with
  | highest => exact .operand (.unsigned (.unraised derives_primary_sample))
  | @cons rank level tighter hrank _ _ ih =>
      rw [List.length_cons, Nat.add_right_comm]
      exact .higher hrank ih

/-- A string completes whatever it spells. -/
theorem completes_string {α : Type} {spells : List Token → α → Prop} {value : α}
    (hvalue : spells [TokenKind.string.sample] value) :
    Completes [.string] spells :=
  completes_spelling [.string] hvalue (by decide)

theorem exists_derives_number :
    ∃ expr, Derives .primary (depth + 1) [TokenKind.number.sample] expr := by
  obtain ⟨x, hx⟩ := exists_entireNumber_sample
  exact ⟨.number x, .number rfl hx⟩

theorem sound_deeper (rule : Rule) {parser : Parser rule.Result}
    (hsound : Sound parser (rule.Derives depth)) :
    Sound parser (rule.Derives (depth + 12)) :=
  hsound.imp fun _ _ hderives => hderives.mono (Nat.le_add_right depth 12)

end Samples

/-! ## Lists and chains -/

section Lists

variable {α : Type} {spells : List Token → α → Prop}

theorem commaRest_rounds {item : Parser α}
    (halike : (movedDown 0).ReadsAlike 0 item) {rounds : Nat} (cursor : Cursor)
    (hfinal : cursor.final.kind = .endOfInput)
    (hrounds : cursor.rest.length ≤ rounds) :
    commaRest item rounds cursor = commaRest item cursor.rest.length cursor :=
  (Pairing.outcomes_commaRest halike (Cursor.paired_self hfinal) hrounds
    (Nat.le_refl _)).eq

theorem pinpoints_commaRest {item : Parser α} (hitem : Pinpoints item spells)
    (hsound : Sound item spells) (halike : (movedDown 0).ReadsAlike 0 item) :
    Pinpoints (do commaRest item (← remaining)) (FurtherItems spells) := by
  intro cursor hfinal
  induction hlength : cursor.rest.length using Nat.strongRecOn
    generalizing cursor with
  | ind length ih =>
      by_cases hcomma : cursor.peek.kind = .sign .comma
      · have hkind : cursor.peek.kind ≠ .endOfInput := hcomma ▸ nofun
        apply PinpointsAt.round (fun rounds head => do
          return head :: (← commaRest item rounds)) _ hitem hsound hfinal hkind
        · intro other
          rw [remaining_bind_apply]
          change commaRest item (other.rest.length + 1)
            (other.before [cursor.peek]) = _
          rw [commaRest, bind_apply, acceptKind_read other _ [] hcomma]
          rfl
        · exact fun front head hhead => ⟨[head], .some hcomma (.last hhead)⟩
        · intro front head hhead later hlater hshorter
          apply (ih _ (hlength ▸ hshorter) later hlater rfl).map
          intro back others hothers
          exact .some hcomma (hothers.separated hhead)
        · intro head later rounds hlater hrounds
          rw [bind_apply, bind_apply, commaRest_rounds halike later hlater hrounds]
      · apply (pinpoints_pure [] cursor hfinal).congr hfinal
        intro other hother
        exact commaRest_leave item _ (hother.peek ▸ hcomma)

theorem pinpoints_commaList {first next : Parser α}
    (hfirst : Pinpoints first spells) (hfirstSound : Sound first spells)
    (hnext : Pinpoints next spells) (hnextSound : Sound next spells)
    (halike : (movedDown 0).ReadsAlike 0 next) :
    Pinpoints (commaList first next) (Separated spells) := by
  apply hfirst.bind hfirstSound
  · exact fun front head hhead => completes_nothing (.last hhead)
  · intro front head hhead
    have hrest := pinpoints_commaRest hnext hnextSound halike
    apply hrest.map
    intro back others hothers
    exact hothers.separated hhead

theorem inner_of_isLevel {level : List TokenKind} {rank : Nat}
    (hlevel : IsLevel level rank) : Pairing.Inner level := by
  refine ⟨?_, hlevel.endOfInput⟩
  rw [← Bool.not_eq_true, hlevel]
  exact nofun

theorem pinpoints_chainRest {level : List TokenKind} {rank depth : Nat}
    {operand : Parser Expr} (hlevel : IsLevel level rank)
    (hoperand : Pinpoints operand (Derives (.chain (rank + 1)) depth))
    (hsound : Sound operand (Derives (.chain (rank + 1)) depth))
    (halike : (movedDown 0).ReadsAlike 0 operand) {front : List Token}
    {left : Expr} (hleft : Derives (.chain rank) (depth + 1) front left) :
    Pinpoints (do chainRest level operand (← remaining) left)
      fun back => Derives (.chain rank) (depth + 1) (front ++ back) := by
  intro cursor hfinal
  induction hlength : cursor.rest.length using Nat.strongRecOn
    generalizing cursor front left with
  | ind length ih =>
      by_cases hoperator : level.contains cursor.peek.kind = true
      · have hrank := (hlevel _).mp hoperator
        have hkind := ne_endOfInput_of_contains hlevel.endOfInput hoperator
        apply PinpointsAt.round (fun rounds right =>
          chainRest level operand rounds (.binaryOf cursor.peek.text left right))
          _ hoperand hsound hfinal hkind
        · intro other
          rw [remaining_bind_apply]
          change chainRest level operand (other.rest.length + 1) left
            (other.before [cursor.peek]) = _
          rw [chainRest, bind_apply, acceptAny_read other _ [] hoperator]
          rfl
        · exact fun middle right hright => ⟨_, hleft.infixed hrank hright⟩
        · intro middle right hright later hlater hshorter
          apply (ih _ (hlength ▸ hshorter) (hleft.infixed hrank hright) later
            hlater rfl).imp
          intro back value hvalue
          simpa using hvalue
        · intro right later rounds hlater hrounds
          exact (Pairing.outcomes_chainRest (inner_of_isLevel hlevel) halike _
            (Cursor.paired_self hlater) hrounds (Nat.le_refl _)).eq
      · apply (pinpoints_pure left cursor hfinal).congr hfinal
        intro other hother
        apply chainRest_leave
        rw [hother.peek]
        exact Bool.eq_false_iff.mpr hoperator

theorem Levels.length_add {rank : Nat} {levels : List (List TokenKind)}
    (hlevels : Levels rank levels) : levels.length + rank = 6 := by
  induction hlevels with
  | highest => rfl
  | cons _ _ _ ih =>
      rw [List.length_cons]
      omega

theorem Levels.inner {rank : Nat} {levels : List (List TokenKind)}
    (hlevels : Levels rank levels) : ∀ level ∈ levels, Pairing.Inner level := by
  induction hlevels with
  | highest => exact fun _ hlevel => absurd hlevel List.not_mem_nil
  | cons _ hlevel _ ih =>
      rintro other (_ | ⟨_, hother⟩)
      · exact inner_of_isLevel hlevel
      · exact ih other hother

end Lists

/-! ## Rules that nest -/

theorem converts_numeral (token : Token) : Converts token (numeral token) := by
  unfold numeral
  split
  next x _ => exact .value (.number x) rfl
  next hx => exact .unreadable (Or.inl hx) rfl

theorem pinpoints_variableName :
    Pinpoints variableName fun tokens text => ∃ name : Token,
      tokens = [name] ∧ name.kind = .identifier ∧ text = name.text := by
  apply pinpoints_demandOne_bind
  · exact completes_spelling [.identifier] ⟨_, rfl, rfl, rfl⟩ (by decide)
  · exact fun _ _ => pinpoints_pure _
  · exact nofun

/-- The rules of a depth all pinpoint their failures. -/
structure RulesPinpoint (depth : Nat) : Prop where
  expression : Pinpoints (Parser.expression depth) (Derives .expression (depth + 12))
  chains : ∀ ⦃rank levels⦄, Levels rank levels →
    Pinpoints (Parser.chains depth levels) (Derives (.chain rank) (depth + 12))
  prefixed : Pinpoints (Parser.prefixed depth) (Derives .prefixed (depth + 12))
  power : Pinpoints (Parser.power depth) (Derives .power (depth + 12))
  primary : Pinpoints (Parser.primary depth) (Derives .primary (depth + 12))
  place : Pinpoints (Parser.place depth) (Derives .place (depth + 12))
  expressionList :
    Pinpoints (Parser.expressionList depth) (Derives .listed (depth + 12))

namespace RulesPinpoint

variable {depth : Nat} (hrules : RulesPinpoint depth)

include hrules

theorem expression_succ :
    Pinpoints (Parser.expression (depth + 1))
      (Derives .expression (depth + 1 + 12)) :=
  (hrules.chains levels_operatorLevels).imp fun _ _ hexpr => .entered hexpr

theorem chains_succ {rank : Nat} {levels : List (List TokenKind)}
    (hlevels : Levels rank levels) :
    Pinpoints (Parser.chains (depth + 1) levels)
      (Derives (.chain rank) (depth + 1 + 12)) := by
  cases hlevels with
  | highest => exact hrules.prefixed.imp fun _ _ hexpr => .operand hexpr
  | cons hrank hlevel htighter =>
      have hsound := sound_deeper (.chain (rank + 1))
        ((rulesSound depth).chains htighter)
      apply (hrules.chains htighter).bind hsound
      · exact fun front left hleft => completes_nothing (.higher hrank hleft)
      · intro front left hleft
        exact pinpoints_chainRest hlevel (hrules.chains htighter) hsound
          (((movedDown 0).rulesReadAlike depth).chains htighter.inner)
          (.higher hrank hleft)

theorem prefixed_succ :
    Pinpoints (Parser.prefixed (depth + 1))
      (Derives .prefixed (depth + 1 + 12)) := by
  apply pinpoints_acceptAny_bind rfl
  · intro token htoken
    apply hrules.prefixed.map
    exact fun _ _ hoperand => .signed (prefixOps_contains.mp htoken) hoperand
  · exact hrules.power.imp fun _ _ hpower => .unsigned hpower

theorem power_succ :
    Pinpoints (Parser.power (depth + 1)) (Derives .power (depth + 1 + 12)) := by
  apply hrules.primary.bind (sound_deeper .primary (rulesSound depth).primary)
  · exact fun _ _ hbase => completes_nothing (.unraised hbase)
  · intro front base hbase
    apply pinpoints_acceptAny_bind rfl
    · intro caret hcaret
      apply hrules.prefixed.map
      exact fun _ _ hexponent => .raised hbase (by simpa using hcaret) hexponent
    · exact pinpoints_pure base

/-- What follows an opening parenthesis. -/
theorem grouped {opening : Token} (hopening : opening.kind = .sign .leftParen) :
    Pinpoints
      (do
        let inner ← Parser.expression depth
        let _ ← demand [.sign .rightParen] .closingParen
        return inner)
      fun tokens => Derives .primary (depth + 1 + 12) (opening :: tokens) := by
  have hsound := sound_deeper .expression (rulesSound depth).expression
  have hcloses {tokens : List Token} {inner : Expr}
      (hinner : Derives .expression (depth + 12) tokens inner) :
      Completes [.sign .rightParen] fun back =>
        Derives .primary (depth + 1 + 12) (opening :: (tokens ++ back)) :=
    ⟨by decide, inner, .grouped hopening hinner rfl⟩
  apply hrules.expression.bind hsound
  · exact fun _ _ hinner => ⟨_, hcloses hinner⟩
  · intro tokens inner hinner
    apply pinpoints_demandOne_bind (hcloses hinner)
    · exact fun _ _ => pinpoints_pure inner
    · exact nofun

theorem primary_succ :
    Pinpoints (Parser.primary (depth + 1)) (Derives .primary (depth + 1 + 12)) := by
  intro cursor hfinal
  have hother {parser : Parser Expr}
      (hparser : Pinpoints parser (Derives .primary (depth + 1 + 12)))
      (hsame : ∀ other : Cursor, other.Resembles cursor →
        Parser.primary (depth + 1) other = parser other) :
      PinpointsAt (Parser.primary (depth + 1))
        (Derives .primary (depth + 1 + 12)) cursor :=
    (hparser cursor hfinal).congr hfinal hsame
  cases hkind : cursor.peek.kind with
  | number =>
      obtain ⟨expr, hexpr⟩ := exists_derives_number
      apply PinpointsAt.numeral id (converts_numeral cursor.peek) hfinal hkind
      · exact ⟨by decide, expr, hexpr⟩
      · intro other
        rw [Parser.primary, peek_bind_apply, Cursor.peek_before, hkind]
        dsimp only
        rw [skip_bind_apply]
        exact congrFun (bind_pure (numeral cursor.peek)).symm other
  | string =>
      have hpure : Pinpoints (pure (.text cursor.peek.text))
          fun back => Derives .primary (depth + 1 + 12) (cursor.peek :: back) :=
        pinpoints_pure _
      apply (hpure cursor.skip hfinal).read hfinal (by simp [hkind])
      intro other _
      rw [Parser.primary, peek_bind_apply, Cursor.peek_before, hkind]
      rfl
  | identifier =>
      have hplace : Pinpoints (do return (← Parser.place depth).toExpr)
          (Derives .primary (depth + 1 + 12)) :=
        hrules.place.map Place.toExpr fun _ _ htarget => .reference htarget
      apply hother hplace
      intro other hpeek
      rw [Parser.primary, peek_bind_apply, hpeek.peek, hkind]
  | sign sign =>
      by_cases hparen : sign = .leftParen
      · rw [hparen] at hkind
        apply (hrules.grouped hkind cursor.skip hfinal).read hfinal (by simp [hkind])
        intro other _
        rw [Parser.primary, peek_bind_apply, Cursor.peek_before, hkind]
        rfl
      · apply hother (pinpoints_unexpected (completes_string derives_primary_sample))
        intro other hpeek
        rw [Parser.primary, peek_bind_apply, hpeek.peek, hkind]
        cases sign <;> first | rfl | exact absurd rfl hparen
  | _ =>
      apply hother (pinpoints_unexpected (completes_string derives_primary_sample))
      intro other hpeek
      rw [Parser.primary, peek_bind_apply, hpeek.peek, hkind]

theorem place_succ :
    Pinpoints (Parser.place (depth + 1)) (Derives .place (depth + 1 + 12)) := by
  apply pinpoints_variableName.bind sound_variableName
  · rintro _ _ ⟨name, rfl, hname, rfl⟩
    exact completes_nothing (.scalar hname)
  · rintro _ _ ⟨name, rfl, hname, rfl⟩
    apply pinpoints_accept_bind rfl
    · intro opening closing hopening
      have hbrackets := brackets_of_closing? hopening
      have hinner : ∀ kind ∈ [closing], kind ≠ .endOfInput :=
        List.forall_mem_singleton.mpr (ne_endOfInput_of_brackets hbrackets)
      have hcloses {tokens : List Token} {indices : List Expr}
          (hindices : Derives .listed (depth + 12) tokens indices) :
          Completes [closing] fun back =>
            Derives .place (depth + 1 + 12) (name :: opening :: (tokens ++ back)) :=
        ⟨hinner, _, .element hname hindices hbrackets⟩
      have hsound := sound_deeper .listed (rulesSound depth).expressionList
      apply hrules.expressionList.bind hsound
      · exact fun _ _ hindices => ⟨_, hcloses hindices⟩
      · intro tokens indices hindices
        apply pinpoints_demandOne_bind (hcloses hindices)
        · exact fun _ _ => pinpoints_pure _
        · exact ne_endOfInput_of_brackets hbrackets
    · exact pinpoints_pure _

theorem expressionList_succ :
    Pinpoints (Parser.expressionList (depth + 1))
      (Derives .listed (depth + 1 + 12)) := by
  have hsound := sound_deeper .expression (rulesSound depth).expression
  have hlisted := pinpoints_commaList hrules.expression hsound hrules.expression
    hsound ((movedDown 0).rulesReadAlike depth).expression
  exact hlisted.imp fun _ _ hexprs => derives_listed hexprs

end RulesPinpoint

theorem rulesPinpoint (depth : Nat) : RulesPinpoint depth := by
  induction depth with
  | zero =>
      have hchain {rank : Nat} {levels : List (List TokenKind)}
          (hlevels : Levels rank levels) :
          Derives (.chain rank) 12 [TokenKind.string.sample] (.text "") := by
        have hlength := hlevels.length_add
        exact (derives_chain_sample hlevels).mono (by omega)
      have hunraised : Derives .power 12 [TokenKind.string.sample] (.text "") :=
        .unraised derives_primary_sample
      have hunsigned : Derives .prefixed 12 [TokenKind.string.sample] (.text "") :=
        .unsigned (.unraised derives_primary_sample)
      have hname : Derives .place 12 [TokenKind.identifier.sample] ⟨"A", []⟩ :=
        .scalar rfl
      exact {
        expression := pinpoints_refuse nofun (completes_string derives_sample)
        chains := fun _ _ hlevels =>
          pinpoints_refuse nofun (completes_string (hchain hlevels))
        prefixed := pinpoints_refuse nofun (completes_string hunsigned)
        power := pinpoints_refuse nofun (completes_string hunraised)
        primary := pinpoints_refuse nofun (completes_string derives_primary_sample)
        place := pinpoints_refuse nofun
          (completes_spelling [.identifier] hname (by decide))
        expressionList :=
          pinpoints_refuse nofun (completes_string (.last derives_sample)) }
  | succ depth ih =>
      exact {
        expression := ih.expression_succ
        chains := fun _ _ hlevels => ih.chains_succ hlevels
        prefixed := ih.prefixed_succ
        power := ih.power_succ
        primary := ih.primary_succ
        place := ih.place_succ
        expressionList := ih.expressionList_succ }

end Parser

end NumberedBasic
