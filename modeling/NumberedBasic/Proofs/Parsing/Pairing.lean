import NumberedBasic.Proofs.Parsing.Primitives
import NumberedBasic.Proofs.Token.Lines

/-!
# Two cursors side by side

A parser reads from two cursors in the same way if they hold the same tokens,
in positions further down or with further lines after the end of the one.
Rules that treat the end of a line and the end of input alike then have the
same result on both.
-/

namespace NumberedBasic

def ParseFailure.down (lines : Nat) : ParseFailure → ParseFailure
  | .refused error => .refused (error.down lines)
  | .unreadableNumeral => .unreadableNumeral

/-- How two cursors correspond. -/
structure Pairing where
  /-- How much further down the tokens of the second cursor stand. -/
  lines : Nat
  /-- The second cursor has further lines after the end of the first. -/
  goesOn : Prop
  Paired : Cursor → Cursor → Prop
  final : ∀ {cursor cursor'}, Paired cursor cursor' →
    cursor.final.kind = .endOfInput
  peek : ∀ {cursor cursor'}, Paired cursor cursor' →
    cursor'.peek = cursor.peek.down lines ∨
      goesOn ∧ cursor.peek.kind = .endOfInput ∧ cursor'.peek.kind = .newline
  skip : ∀ {cursor cursor'}, Paired cursor cursor' →
    cursor.peek.kind ≠ .endOfInput → Paired cursor.skip cursor'.skip
  length : ∀ {cursor cursor'}, Paired cursor cursor' →
    cursor.rest.length ≤ cursor'.rest.length

namespace Pairing

variable {α β α' β' : Type} (pairing : Pairing)

/-- Results of parsers from two cursors.  Both are successful, the first with
a number of tokens read at least, or both fail alike.  If there are further
lines, nothing is said of the second where the first fails. -/
inductive Outcomes (read : Nat) (before : Cursor) (values : α → β → Prop) :
    Except ParseFailure (α × Cursor) → Except ParseFailure (β × Cursor) →
      Prop where
  | parsed {value : α} {value' : β} {later later' : Cursor}
      (hread : later.rest.length + read ≤ before.rest.length)
      (hvalues : values value value') (hpaired : pairing.Paired later later') :
      Outcomes read before values (.ok (value, later)) (.ok (value', later'))
  | failed (failure : ParseFailure) :
      Outcomes read before values (.error failure)
        (.error (failure.down pairing.lines))
  | goesOn {failure : ParseFailure}
      {outcome' : Except ParseFailure (β × Cursor)} (hmore : pairing.goesOn) :
      Outcomes read before values (.error failure) outcome'

/-- From every two cursors that correspond, the parsers have the results
described. -/
def Parses (read : Nat) (first : Parser α) (second : Parser β)
    (values : α → β → Prop) : Prop :=
  ∀ cursor cursor', pairing.Paired cursor cursor' →
    pairing.Outcomes read cursor values (first cursor) (second cursor')

variable {pairing} {cursor cursor' : Cursor} {read : Nat}
variable {values : α → β → Prop}

/-- The tokens that were read before count as well. -/
theorem Outcomes.after {later : Cursor} {further : Nat}
    {outcome : Except ParseFailure (α × Cursor)}
    {outcome' : Except ParseFailure (β × Cursor)}
    (houtcomes : pairing.Outcomes further later values outcome outcome')
    (hread : later.rest.length + read ≤ cursor.rest.length) :
    pairing.Outcomes (read + further) cursor values outcome outcome' := by
  cases houtcomes with
  | parsed hfurther hvalues hpaired =>
      exact .parsed (by omega) hvalues hpaired
  | failed failure => exact .failed failure
  | goesOn hmore => exact .goesOn hmore

theorem Outcomes.weaken {less : Nat}
    {outcome : Except ParseFailure (α × Cursor)}
    {outcome' : Except ParseFailure (β × Cursor)}
    (houtcomes : pairing.Outcomes read cursor values outcome outcome')
    (hless : less ≤ read) :
    pairing.Outcomes less cursor values outcome outcome' := by
  cases houtcomes with
  | parsed hread hvalues hpaired => exact .parsed (by omega) hvalues hpaired
  | failed failure => exact .failed failure
  | goesOn hmore => exact .goesOn hmore

/-- What comes after a parser starts where it has stopped. -/
theorem Outcomes.bind_add {first : Parser α} {second : Parser β}
    {next : α → Parser α'} {next' : β → Parser β'} {further : Nat}
    {results : α' → β' → Prop}
    (hfirst : pairing.Outcomes read cursor values (first cursor)
      (second cursor'))
    (hnext : ∀ value value' later later',
      first cursor = .ok (value, later) →
      later.rest.length + read ≤ cursor.rest.length → values value value' →
      pairing.Paired later later' →
      pairing.Outcomes further later results (next value later)
        (next' value' later')) :
    pairing.Outcomes (read + further) cursor results ((first >>= next) cursor)
      ((second >>= next') cursor') := by
  rw [Parser.bind_apply, Parser.bind_apply]
  generalize hresult : first cursor = outcome at hfirst hnext
  generalize second cursor' = outcome' at hfirst
  cases hfirst with
  | parsed hread hvalues hpaired =>
      exact (hnext _ _ _ _ rfl hread hvalues hpaired).after hread
  | failed failure => exact .failed failure
  | goesOn hmore => exact .goesOn hmore

theorem Outcomes.bind {first : Parser α} {second : Parser β}
    {next : α → Parser α'} {next' : β → Parser β'}
    {results : α' → β' → Prop}
    (hfirst : pairing.Outcomes read cursor values (first cursor)
      (second cursor'))
    (hnext : ∀ value value' later later',
      first cursor = .ok (value, later) →
      later.rest.length + read ≤ cursor.rest.length → values value value' →
      pairing.Paired later later' →
      pairing.Outcomes 0 later results (next value later)
        (next' value' later')) :
    pairing.Outcomes read cursor results ((first >>= next) cursor)
      ((second >>= next') cursor') :=
  Outcomes.bind_add hfirst hnext

theorem Parses.bind {first : Parser α} {second : Parser β}
    {next : α → Parser α'} {next' : β → Parser β'}
    {results : α' → β' → Prop}
    (hfirst : pairing.Parses read first second values)
    (hnext : ∀ value value', values value value' →
      pairing.Parses 0 (next value) (next' value') results) :
    pairing.Parses read (first >>= next) (second >>= next') results := by
  intro cursor cursor' hpaired
  apply Outcomes.bind (hfirst cursor cursor' hpaired)
  intro value value' later later' _ _ hvalues hlater
  exact hnext value value' hvalues later later' hlater

theorem Parses.pure {value : α} {value' : β} (hvalues : values value value') :
    pairing.Parses 0 (Pure.pure value) (Pure.pure value') values :=
  fun _ _ hpaired => .parsed (Nat.le_refl _) hvalues hpaired

theorem Parses.weaken {less : Nat} {first : Parser α} {second : Parser β}
    (hparses : pairing.Parses read first second values) (hless : less ≤ read) :
    pairing.Parses less first second values :=
  fun cursor cursor' hpaired => (hparses cursor cursor' hpaired).weaken hless

theorem Parses.bind_eq {first second : Parser α} {next : α → Parser α'}
    {next' : α → Parser β'} {results : α' → β' → Prop}
    (hfirst : pairing.Parses read first second (· = ·))
    (hnext : ∀ value, pairing.Parses 0 (next value) (next' value) results) :
    pairing.Parses read (first >>= next) (second >>= next') results := by
  apply Parses.bind hfirst
  intro value value' hvalues
  subst hvalues
  exact hnext value

/-- The results of parsers with the same result, in the same form. -/
theorem Parses.map_eq {first second : Parser α}
    (hfirst : pairing.Parses read first second (· = ·)) (form : α → α') :
    pairing.Parses read (do return form (← first))
      (do return form (← second)) (· = ·) :=
  Parses.bind_eq hfirst fun _ => Parses.pure rfl

/-- The same if it does not matter that tokens were read. -/
theorem Parses.andThen {first : Parser α} {second : Parser β}
    {next : α → Parser α'} {next' : β → Parser β'}
    {results : α' → β' → Prop}
    (hfirst : pairing.Parses read first second values)
    (hnext : ∀ value value', values value value' →
      pairing.Parses 0 (next value) (next' value') results) :
    pairing.Parses 0 (first >>= next) (second >>= next') results :=
  Parses.bind (hfirst.weaken (Nat.zero_le read)) hnext

theorem Parses.throw (failure : ParseFailure) :
    pairing.Parses read (throw failure : Parser α)
      (throw (failure.down pairing.lines) : Parser β) values :=
  fun _ _ _ => .failed failure

/-! ## Looking at the next token -/

section Peek

variable (hpaired : pairing.Paired cursor cursor')

include hpaired

/-- What does not tell the end of a line from the end of input is the same of
both tokens. -/
theorem same_of_peek {γ : Type} (meaning : TokenKind → γ)
    (hends : meaning .newline = meaning .endOfInput) :
    meaning cursor'.peek.kind = meaning cursor.peek.kind := by
  rcases pairing.peek hpaired with hpeek | ⟨-, hend, hnewline⟩
  · rw [hpeek]
    rfl
  · rw [hend, hnewline, hends]

theorem peek_of_kind (hkind : cursor.peek.kind ≠ .endOfInput) :
    cursor'.peek = cursor.peek.down pairing.lines := by
  rcases pairing.peek hpaired with hpeek | ⟨-, hend, -⟩
  · exact hpeek
  · exact absurd hend hkind

theorem length_skip (hkind : cursor.peek.kind ≠ .endOfInput) :
    cursor.skip.rest.length + 1 = cursor.rest.length := by
  obtain ⟨rest, final⟩ := cursor
  cases rest with
  | nil => exact absurd (pairing.final hpaired) hkind
  | cons token rest => rfl

/-- A token that has been looked at may be skipped on both sides. -/
theorem outcomes_skip (hkind : cursor.peek.kind ≠ .endOfInput)
    {next : Parser α} {next' : Parser β}
    (hnext : pairing.Parses 0 next next' values) (hread : read ≤ 1) :
    pairing.Outcomes read cursor values (next cursor.skip)
      (next' cursor'.skip) := by
  have houtcomes := hnext _ _ (pairing.skip hpaired hkind)
  exact (houtcomes.after (Nat.le_of_eq (length_skip hpaired hkind))).weaken hread

theorem peek_of_rest_nil (hrest : cursor.rest.length = 0) :
    cursor.peek.kind = .endOfInput := by
  rw [Cursor.peek, List.length_eq_zero_iff.mp hrest]
  exact pairing.final hpaired

end Peek

/-- A complaint about the next token moves down with it, or is overtaken by
further lines. -/
theorem parses_refuse (cause : SyntaxCause) :
    pairing.Parses read (Parser.refuse cause : Parser α)
      (Parser.refuse cause : Parser β) values := by
  intro cursor cursor' hpaired
  rw [Parser.refuse_apply, Parser.refuse_apply]
  rcases pairing.peek hpaired with hpeek | ⟨hmore, -⟩
  · rw [Cursor.errorHere, Cursor.errorHere, hpeek]
    exact .failed _
  · exact .goesOn hmore

theorem parses_unexpected :
    pairing.Parses read (Parser.unexpected : Parser α)
      (Parser.unexpected : Parser β) values := by
  intro cursor cursor' hpaired
  rw [Parser.unexpected_apply, Parser.unexpected_apply]
  rcases pairing.peek hpaired with hpeek | ⟨hmore, -⟩
  · rw [Cursor.unexpected, Cursor.unexpected, Cursor.errorHere,
      Cursor.errorHere, hpeek]
    exact .failed _
  · exact .goesOn hmore

/-! ## Reading the next token -/

section Read

variable (hpaired : pairing.Paired cursor cursor')

include hpaired

theorem outcomes_leave {value : α} {value' : β} (hvalues : values value value') :
    pairing.Outcomes 0 cursor values (.ok (value, cursor))
      (.ok (value', cursor')) :=
  .parsed (Nat.le_refl _) hvalues hpaired

theorem outcomes_read (hkind : cursor.peek.kind ≠ .endOfInput) {value : α}
    {value' : β} (hvalues : values value value') :
    pairing.Outcomes 1 cursor values (.ok (value, cursor.skip))
      (.ok (value', cursor'.skip)) :=
  .parsed (Nat.le_of_eq (length_skip hpaired hkind)) hvalues
    (pairing.skip hpaired hkind)

end Read

/-- The same token, further down. -/
def Below (pairing : Pairing) (token token' : Token) : Prop :=
  token' = token.down pairing.lines

theorem parses_accept {meaning? : TokenKind → Option α}
    (hnewline : meaning? .newline = none)
    (hend : meaning? .endOfInput = none) :
    pairing.Parses 0 (Parser.accept meaning?) (Parser.accept meaning?)
      (· = ·) := by
  intro cursor cursor' hpaired
  have hsame := same_of_peek hpaired meaning? (hnewline.trans hend.symm)
  rw [Parser.accept_apply, Parser.accept_apply, hsame]
  cases hmeaning : meaning? cursor.peek.kind with
  | none => exact outcomes_leave hpaired rfl
  | some meaning =>
      have hkind : cursor.peek.kind ≠ .endOfInput := by
        intro hkind
        rw [hkind, hend] at hmeaning
        cases hmeaning
      exact (outcomes_read hpaired hkind rfl).weaken (Nat.zero_le 1)

theorem parses_acceptKind (kind : TokenKind) (hnewline : kind ≠ .newline)
    (hend : kind ≠ .endOfInput) :
    pairing.Parses 0 (Parser.acceptKind kind) (Parser.acceptKind kind)
      (· = ·) := by
  intro cursor cursor' hpaired
  have hsame := same_of_peek hpaired (fun next => decide (next = kind))
    ((decide_eq_false hnewline.symm).trans (decide_eq_false hend.symm).symm)
  rw [Parser.acceptKind_apply, Parser.acceptKind_apply]
  by_cases hkind : cursor.peek.kind = kind
  · have hkind' : cursor'.peek.kind = kind := by simpa [hkind] using hsame
    rw [if_pos hkind, if_pos hkind']
    exact (outcomes_read hpaired (hkind ▸ hend) rfl).weaken (Nat.zero_le 1)
  · have hkind' : cursor'.peek.kind ≠ kind := by simpa [hkind] using hsame
    rw [if_neg hkind, if_neg hkind']
    exact outcomes_leave hpaired rfl

/-- The kinds of tokens that a rule may ask for within a line. -/
structure Inner (kinds : List TokenKind) : Prop where
  newline : kinds.contains .newline = false
  endOfInput : kinds.contains .endOfInput = false

theorem Inner.ne_endOfInput {kinds : List TokenKind} (hinner : Inner kinds)
    {kind : TokenKind} (hkind : kinds.contains kind = true) :
    kind ≠ .endOfInput := by
  rintro rfl
  rw [hinner.endOfInput] at hkind
  cases hkind

section Kinds

variable {kinds : List TokenKind} (hinner : Inner kinds)

include hinner

theorem parses_acceptAny :
    pairing.Parses 0 (Parser.acceptAny kinds) (Parser.acceptAny kinds)
      (Option.Rel pairing.Below) := by
  intro cursor cursor' hpaired
  have hsame := same_of_peek hpaired kinds.contains
    (hinner.newline.trans hinner.endOfInput.symm)
  rw [Parser.acceptAny_apply, Parser.acceptAny_apply, hsame]
  split
  next hcontains =>
    have hkind := hinner.ne_endOfInput hcontains
    exact (outcomes_read hpaired hkind
      (.some (peek_of_kind hpaired hkind))).weaken (Nat.zero_le 1)
  next => exact outcomes_leave hpaired .none

theorem parses_demand (what : Expected) :
    pairing.Parses 1 (Parser.demand kinds what) (Parser.demand kinds what)
      pairing.Below := by
  intro cursor cursor' hpaired
  have hsame := same_of_peek hpaired kinds.contains
    (hinner.newline.trans hinner.endOfInput.symm)
  have hrefuse : pairing.Outcomes 1 cursor pairing.Below
      (Parser.refuse (.expected what) cursor)
      (Parser.refuse (.expected what) cursor') :=
    parses_refuse (.expected what) cursor cursor' hpaired
  rw [Parser.refuse_apply, Parser.refuse_apply] at hrefuse
  rw [Parser.demand_apply, Parser.demand_apply, hsame]
  split
  next hcontains =>
    have hkind := hinner.ne_endOfInput hcontains
    exact outcomes_read hpaired hkind (peek_of_kind hpaired hkind)
  next => exact hrefuse

/-- The text of a token that is demanded may not matter. -/
theorem parses_demandThen {next : Parser α} {next' : Parser β}
    {values : α → β → Prop} (what : Expected)
    (hnext : pairing.Parses 0 next next' values) :
    pairing.Parses 0 (do let _ ← Parser.demand kinds what; next)
      (do let _ ← Parser.demand kinds what; next') values := by
  apply Parses.andThen (parses_demand hinner what)
  intro _ _ _
  exact hnext

end Kinds

/-! ## Loops -/

/-- A loop that stops where no token has a meaning to it does not depend on
the number of rounds, if these are as many as the tokens left. -/
theorem outcomes_rounds {γ : Type} (loop : Nat → γ → Parser α)
    (outcome : γ → α)
    (hstop : ∀ rounds start cursor,
      cursor.peek.kind = .newline ∨ cursor.peek.kind = .endOfInput →
        loop rounds start cursor = .ok (outcome start, cursor))
    (hround : ∀ rounds rounds',
      (∀ start cursor cursor', pairing.Paired cursor cursor' →
        cursor.rest.length ≤ rounds → cursor.rest.length ≤ rounds' →
          pairing.Outcomes 0 cursor (· = ·) (loop rounds start cursor)
            (loop rounds' start cursor')) →
      ∀ start cursor cursor', pairing.Paired cursor cursor' →
        cursor.rest.length ≤ rounds + 1 → cursor.rest.length ≤ rounds' + 1 →
          pairing.Outcomes 0 cursor (· = ·) (loop (rounds + 1) start cursor)
            (loop (rounds' + 1) start cursor'))
    (rounds rounds' : Nat) (start : γ) (cursor cursor' : Cursor)
    (hpaired : pairing.Paired cursor cursor')
    (hrounds : cursor.rest.length ≤ rounds)
    (hrounds' : cursor.rest.length ≤ rounds') :
    pairing.Outcomes 0 cursor (· = ·) (loop rounds start cursor)
      (loop rounds' start cursor') := by
  have hended (rounds rounds' : Nat) (start : γ) (cursor cursor' : Cursor)
      (hpaired : pairing.Paired cursor cursor')
      (hrest : cursor.rest.length = 0) :
      pairing.Outcomes 0 cursor (· = ·) (loop rounds start cursor)
        (loop rounds' start cursor') := by
    have hkind := peek_of_rest_nil hpaired hrest
    have hkind' : cursor'.peek.kind = .newline ∨
        cursor'.peek.kind = .endOfInput := by
      rcases pairing.peek hpaired with hpeek | ⟨-, -, hnewline⟩
      · exact Or.inr (hpeek ▸ hkind)
      · exact Or.inl hnewline
    rw [hstop rounds start cursor (Or.inr hkind),
      hstop rounds' start cursor' hkind']
    exact outcomes_leave hpaired rfl
  induction rounds generalizing rounds' start cursor cursor' with
  | zero =>
      exact hended 0 rounds' start cursor cursor' hpaired (Nat.le_zero.mp hrounds)
  | succ rounds ih =>
      cases rounds' with
      | zero =>
          exact hended (rounds + 1) 0 start cursor cursor' hpaired
            (Nat.le_zero.mp hrounds')
      | succ rounds' =>
          exact hround rounds rounds' (ih rounds') start cursor cursor' hpaired
            hrounds hrounds'

end Pairing

end NumberedBasic
