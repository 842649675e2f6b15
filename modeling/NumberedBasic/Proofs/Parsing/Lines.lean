import NumberedBasic.Proofs.Parsing.Statement

/-!
# Lines from two cursors

A line reads alike further down, and so do all the lines of a program: only
the positions in complaints move.
-/

namespace NumberedBasic

namespace Parser

/-! ## The parts of a line -/

def numberIfAny : Parser (Option Int) := do
  match ← acceptNumeral with
  | some token => pure (some (← lineNumber token))
  | none => pure none

/-- A line up to its end. -/
def numbered [Host] : Parser Line := do
  let number ← numberIfAny
  let body ← statement Host.nesting
  return ⟨number, body⟩

def lineEnd : Parser Unit := do
  if (← peek).kind.endsStatement then
    let _ ← acceptKind .newline
    return ()
  else unexpected

theorem line_eq [Host] : line = (do
    let line ← numbered
    lineEnd
    return line) := by
  have hend (line : Line) :
      (do
        if (← peek).kind.endsStatement then
          let _ ← acceptKind .newline
          return line
        else unexpected) = (do
          lineEnd
          return line) := by
    rw [lineEnd]
    rw [bind_assoc]
    congr 1
    funext token
    split
    · simp only [bind_assoc, pure_bind]
    · rfl
  rw [line, numbered, numberIfAny]
  simp only [bind_assoc, pure_bind]
  congr 1
  funext token?
  cases token? with
  | none =>
      simp only [pure_bind]
      congr 1
      funext body
      exact hend ⟨none, body⟩
  | some token =>
      simp only [bind_assoc, pure_bind]
      congr 1
      funext number
      congr 1
      funext body
      exact hend ⟨some number, body⟩

theorem lineEnd_apply (cursor : Cursor) :
    lineEnd cursor =
      if cursor.peek.kind = .newline then .ok ((), cursor.skip)
      else if cursor.peek.kind = .endOfInput then .ok ((), cursor)
      else .error (.refused cursor.unexpected) := by
  rw [lineEnd, peek_bind_apply]
  by_cases hnewline : cursor.peek.kind = .newline
  · rw [if_pos hnewline, if_pos (by rw [hnewline]; rfl), bind_apply,
      acceptKind_apply, if_pos hnewline]
    rfl
  · rw [if_neg hnewline]
    by_cases hend : cursor.peek.kind = .endOfInput
    · rw [if_pos hend, if_pos (by rw [hend]; rfl), bind_apply,
        acceptKind_apply, if_neg hnewline]
      rfl
    · rw [if_neg hend, if_neg (by simp [TokenKind.endsStatement, hnewline, hend])]
      rfl

theorem lines_apply [Host] (rounds : Nat) (found : List Line) (cursor : Cursor) :
    lines (rounds + 1) found cursor =
      if cursor.peek.kind = .endOfInput then .ok (found.reverse, cursor)
      else if cursor.peek.kind = .newline then lines rounds found cursor.skip
      else (line >>= fun line => lines rounds (line :: found)) cursor := by
  change (if cursor.atEnd = true then _ else _ : Parser Program) cursor = _
  by_cases hend : cursor.peek.kind = .endOfInput
  · have hatEnd : cursor.atEnd = true := decide_eq_true hend
    rw [if_pos hend, if_pos hatEnd]
    rfl
  · have hatEnd : ¬cursor.atEnd = true := by simpa [Cursor.atEnd] using hend
    rw [if_neg hend, if_neg hatEnd, bind_apply, acceptKind_apply]
    by_cases hnewline : cursor.peek.kind = .newline
    · rw [if_pos hnewline, if_pos hnewline]
      rfl
    · rw [if_neg hnewline, if_neg hnewline]
      rfl

theorem lines_found [Host] (rounds : Nat) (found : List Line) (cursor : Cursor) :
    lines rounds found cursor =
      (lines rounds [] cursor).map fun result =>
        (found.reverse ++ result.1, result.2) := by
  induction rounds generalizing found cursor with
  | zero => exact congrArg (fun program => Except.ok (program, cursor)) (by simp)
  | succ rounds ih =>
      rw [lines_apply, lines_apply]
      split
      · simp [Except.map]
      · split
        · exact ih found cursor.skip
        · rw [bind_apply, bind_apply]
          cases line cursor with
          | error failure => rfl
          | ok result =>
              change lines rounds (result.1 :: found) result.2 =
                (lines rounds [result.1] result.2).map _
              rw [ih (result.1 :: found), ih [result.1]]
              cases lines rounds [] result.2 <;> simp [Except.map]

end Parser

/-! ## The same lines further down -/

def Cursor.down (lines : Nat) (cursor : Cursor) : Cursor :=
  ⟨cursor.rest.map (Token.down lines), cursor.final.down lines⟩

theorem Cursor.peek_down (lines : Nat) (cursor : Cursor) :
    (cursor.down lines).peek = cursor.peek.down lines := by
  obtain ⟨rest, final⟩ := cursor
  cases rest <;> rfl

theorem Cursor.skip_down (lines : Nat) (cursor : Cursor) :
    (cursor.down lines).skip = cursor.skip.down lines := by
  obtain ⟨rest, final⟩ := cursor
  cases rest <;> rfl

/-- The second cursor holds the same tokens further down. -/
def movedDown (lines : Nat) : Pairing where
  lines := lines
  goesOn := False
  Paired cursor cursor' :=
    cursor.final.kind = .endOfInput ∧ cursor' = cursor.down lines
  final hpaired := hpaired.1
  peek := by
    rintro cursor _ ⟨-, rfl⟩
    exact Or.inl (cursor.peek_down lines)
  skip := by
    rintro cursor _ ⟨hfinal, rfl⟩ _
    exact ⟨hfinal, cursor.skip_down lines⟩
  length := by
    rintro cursor _ ⟨-, rfl⟩
    exact Nat.le_of_eq (List.length_map _).symm

namespace Pairing

variable [Host]

theorem readsAlike_numbered {pairing : Pairing} :
    pairing.ReadsAlike 1 Parser.numbered := by
  have hnumber : pairing.ReadsAlike 0 Parser.numberIfAny := by
    apply Parses.bind (parses_acceptAny ⟨rfl, rfl⟩)
    intro token? token?' htokens
    cases htokens with
    | none => exact Parses.pure rfl
    | some htoken =>
        exact Parses.map_eq (parses_lineNumber htoken) _
  intro cursor cursor' hpaired
  change pairing.Outcomes (0 + 1) cursor _ _ _
  apply Outcomes.bind_add (hnumber cursor cursor' hpaired)
  rintro number _ later later' - - rfl hlater
  exact Parses.map_eq (readsAlike_statement Host.nesting) _ later later'
    hlater

theorem readsAlike_line (lines : Nat) :
    (movedDown lines).ReadsAlike 1 Parser.line := by
  rw [Parser.line_eq]
  apply Parses.bind_eq readsAlike_numbered
  intro line
  have hend : (movedDown lines).ReadsAlike 0 Parser.lineEnd := by
    intro cursor cursor' hpaired
    have hpeek : cursor'.peek.kind = cursor.peek.kind := by
      rw [hpaired.2, Cursor.peek_down]
      rfl
    rw [Parser.lineEnd_apply, Parser.lineEnd_apply, hpeek]
    split
    next hnewline =>
      exact (outcomes_read hpaired (hnewline ▸ nofun) rfl).weaken
        (Nat.zero_le 1)
    next =>
      split
      · exact outcomes_leave hpaired rfl
      · exact parses_unexpected cursor cursor' hpaired
  apply Parses.bind hend
  intro _ _ _
  exact Parses.pure rfl

/-- The lines further down are the same, in any number of rounds that is
enough for them. -/
theorem outcomes_lines (down : Nat) {rounds rounds' : Nat} (found : List Line)
    {cursor cursor' : Cursor} (hpaired : (movedDown down).Paired cursor cursor')
    (hrounds : cursor.rest.length < rounds)
    (hrounds' : cursor.rest.length < rounds') :
    (movedDown down).Outcomes 0 cursor (· = ·)
      (Parser.lines rounds found cursor) (Parser.lines rounds' found cursor') := by
  induction rounds generalizing rounds' found cursor cursor' with
  | zero => exact absurd hrounds (Nat.not_lt_zero _)
  | succ rounds ih =>
      obtain ⟨rounds', rfl⟩ := Nat.exists_eq_succ_of_ne_zero
        (Nat.ne_of_gt (Nat.lt_of_le_of_lt (Nat.zero_le _) hrounds'))
      have hpeek : cursor'.peek.kind = cursor.peek.kind := by
        rw [hpaired.2, Cursor.peek_down]
        rfl
      rw [Parser.lines_apply, Parser.lines_apply, hpeek]
      split
      next => exact outcomes_leave hpaired rfl
      next hend =>
        have hskip := (movedDown down).skip hpaired hend
        have hlength := length_skip hpaired hend
        split
        next hnewline =>
          have hlines : (movedDown down).Outcomes 0 cursor.skip (· = ·)
              (Parser.lines rounds found cursor.skip)
              (Parser.lines rounds' found cursor'.skip) :=
            ih found hskip (by omega) (by omega)
          exact (hlines.after (Nat.le_of_eq hlength)).weaken (Nat.zero_le _)
        next =>
          apply Outcomes.weaken _ (Nat.zero_le 1)
          apply Outcomes.bind (readsAlike_line down cursor cursor' hpaired)
          rintro line _ later later' - hread rfl hlater
          exact ih (line :: found) hlater (by omega) (by omega)

end Pairing

end NumberedBasic
