import NumberedBasic.Proofs.Token.Lexing

/-!
# Lines after lines

Where a text starts shows in positions only, and the tokens of its lines do
not depend on the lines after them.  The tokens of two texts, one above the
other, are those of the two with the second moved down.
-/

namespace NumberedBasic

/-! ## Positions further down -/

/-- The same column, a number of lines further down. -/
def Position.down (lines : Nat) (position : Position) : Position :=
  ⟨position.line + lines, position.column⟩

def Token.down (lines : Nat) (token : Token) : Token :=
  { token with position := token.position.down lines }

@[simp]
theorem Token.kind_down (lines : Nat) (token : Token) :
    (token.down lines).kind = token.kind := rfl

@[simp]
theorem Token.text_down (lines : Nat) (token : Token) :
    (token.down lines).text = token.text := rfl

def SyntaxError.down (lines : Nat) (error : SyntaxError) : SyntaxError :=
  { error with position := error.position.down lines }

theorem Position.step_down (lines : Nat) (position : Position) (c : Char) :
    (position.down lines).step c = (position.step c).down lines := by
  unfold Position.step
  split
  · simp only [Position.down, Nat.add_right_comm]
  · rfl

theorem Position.after_down (lines : Nat) (position : Position)
    (text : List Char) :
    (position.down lines).after text = (position.after text).down lines := by
  induction text generalizing position with
  | nil => rfl
  | cons c text ih =>
      change ((position.down lines).step c).after text = _
      rw [Position.step_down, ih]
      rfl

/-- Every line feed leads one line further down. -/
theorem Position.line_after (position : Position) (text : List Char) :
    (position.after text).line = position.line + text.count '\n' := by
  induction text generalizing position with
  | nil => rfl
  | cons c text ih =>
      change ((position.step c).after text).line = _
      rw [ih, List.count_cons, Position.step]
      by_cases hc : c = '\n'
      · simp [hc, Nat.add_assoc, Nat.add_comm 1]
      · simp [hc]

/-- A line feed leads to where the next line starts. -/
theorem Position.step_newline (position : Position) :
    position.step '\n' = Position.start.down position.line := by
  simp [Position.step, Position.start, Position.down, Nat.add_comm]

namespace Lexer

/-! ## The same text further down -/

def Source.down (lines : Nat) (source : Source) : Source :=
  { source with position := source.position.down lines }

section Down

variable (lines : Nat)

theorem Source.skipGap_down (source : Source) :
    (source.down lines).skipGap = source.skipGap.down lines := by
  simp only [skipGap, down, Position.after_down]

theorem comment_down (source : Source) :
    comment (source.down lines) =
      ((comment source).1.map (Token.down lines),
        (comment source).2.down lines) := by
  unfold comment
  rw [Source.skipGap_down]
  dsimp only [Source.down]
  rw [Position.after_down]
  split <;> rfl

theorem next_down (source : Source) :
    next (source.down lines) =
      ((next source).map (Option.map (Prod.map (List.map (Token.down lines))
        (Source.down lines)))).mapError (SyntaxError.down lines) := by
  obtain ⟨position, text⟩ := source
  cases text with
  | nil => rfl
  | cons first after =>
      unfold next
      dsimp only [Source.down]
      cases scan first after with
      | error cause => rfl
      | ok lexeme =>
          dsimp only
          rw [Position.after_down]
          split
          · have hcomment := comment_down lines
              ⟨position.after lexeme.written, lexeme.rest⟩
            rw [Source.down] at hcomment
            rw [hcomment]
            rfl
          · rfl

theorem readAll_down (rounds : Nat) (source : Source) (found : List Token) :
    readAll rounds (source.down lines) (found.map (Token.down lines)) =
      ((readAll rounds source found).map (List.map (Token.down lines))).mapError
        (SyntaxError.down lines) := by
  induction rounds generalizing source found with
  | zero => exact congrArg Except.ok (by simp [Token.down, Source.down])
  | succ rounds ih =>
      unfold readAll
      dsimp only
      rw [Source.skipGap_down, next_down]
      cases next source.skipGap with
      | error error => rfl
      | ok found? =>
          cases found? with
          | none => exact congrArg Except.ok (by simp [Token.down, Source.down])
          | some read =>
              obtain ⟨tokens, rest⟩ := read
              have hread := ih rest (tokens.reverse ++ found)
              rw [List.map_append, List.map_reverse] at hread
              exact hread

theorem tokens_down (source : Source) :
    tokens (source.down lines) =
      ((tokens source).map (List.map (Token.down lines))).mapError
        (SyntaxError.down lines) :=
  readAll_down lines _ source []

end Down

/-! ## Further lines -/

section FurtherLines

variable (more : List Char)

def Source.withLines (source : Source) : Source :=
  { source with text := Lexer.withLines more source.text }

theorem Source.skipGap_withLines (source : Source) :
    (source.withLines more).skipGap = source.skipGap.withLines more := by
  obtain ⟨htaken, hdropped⟩ := span_withLines more isGap source.text
    (Or.inr (rfl : isGap '\n' = false))
  simp only [skipGap, withLines, htaken, hdropped]

theorem comment_withLines (source : Source) :
    comment (source.withLines more) =
      ((comment source).1, (comment source).2.withLines more) := by
  obtain ⟨htaken, hdropped⟩ := span_withLines more (· ≠ '\n')
    source.skipGap.text (Or.inr rfl)
  unfold comment
  rw [Source.skipGap_withLines]
  dsimp only [Source.withLines]
  rw [htaken, hdropped]
  split <;> rfl

theorem Lexeme.read_withLines (position : Position) (lexeme : Lexeme) :
    (lexeme.withLines more).read position =
      ((lexeme.read position).1, (lexeme.read position).2.withLines more) := by
  have hcomment := comment_withLines more
    ⟨position.after lexeme.written, lexeme.rest⟩
  rw [Source.withLines] at hcomment
  dsimp only [read, withLines]
  rw [hcomment]
  split <;> rfl

theorem next_withLines {source rest : Source} {read : List Token}
    (hnext : next source = .ok (some (read, rest))) :
    next (source.withLines more) = .ok (some (read, rest.withLines more)) := by
  obtain ⟨first, after, lexeme, htext, hscan, hread⟩ := exists_scan_of_next hnext
  have htext' : (source.withLines more).text =
      first :: Lexer.withLines more after := by
    rw [← withLines_cons, ← htext]
    rfl
  have hread' := lexeme.read_withLines more source.position
  rw [hread] at hread'
  rw [next_of_scan htext' (scan_withLines more hscan)]
  exact congrArg (fun read => Except.ok (some read)) hread'

end FurtherLines

/-! ## The tokens of a text and of further lines -/

/-- The tokens found up to the end of the text are also those found up to the
line feed before further lines. -/
structure Source.Holds (source : Source) (found : List Token) : Prop where
  kinds : ∀ token ∈ found, token.kind ≠ .endOfInput
  alone : tokens source = .ok (found ++ [⟨.endOfInput, "", source.final⟩])
  withLines : ∀ more, tokens (source.withLines more) =
    (tokens ⟨source.final.step '\n', more⟩).map
      (found ++ ⟨.newline, "\n", source.final⟩ :: ·)

theorem Source.Reads.withLines {source : Source} {found : List Token}
    (hreads : source.Reads found) (more : List Char) :
    Lexer.tokens (source.withLines more) =
      (Lexer.tokens ⟨source.final.step '\n', more⟩).map
        (found ++ ⟨.newline, "\n", source.final⟩ :: ·) := by
  induction hreads with
  | @done source hnext =>
      have hempty := text_of_next_none hnext
      have hfinal : source.skipGap.position = source.final := by
        have hfinal := source.reaches_skipGap.final_eq
        rwa [hempty] at hfinal
      rw [tokens_eq, Source.skipGap_withLines, ← hfinal]
      dsimp only [Source.withLines]
      rw [hempty]
      rfl
  | @more source rest read found hnext hrest ih =>
      have hfinal : rest.final = source.final :=
        (source.reaches_skipGap.trans (next_reaches hnext).1).final_eq
      rw [tokens_eq, Source.skipGap_withLines, next_withLines more hnext]
      dsimp only
      rw [ih, hfinal]
      cases Lexer.tokens ⟨source.final.step '\n', more⟩ with
      | error error => rfl
      | ok below => exact congrArg Except.ok (List.append_assoc ..).symm

/-- A text that has tokens keeps them when further lines follow. -/
theorem Source.exists_holds {source : Source} {all : List Token}
    (htokens : tokens source = .ok all) : ∃ found, source.Holds found := by
  obtain ⟨found, hreads⟩ := Source.exists_reads htokens
  exact ⟨found, hreads.kinds, hreads.tokens, hreads.withLines⟩

end Lexer

end NumberedBasic
