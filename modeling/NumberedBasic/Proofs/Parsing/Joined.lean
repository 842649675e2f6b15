import NumberedBasic.Proofs.Parsing.Lines

/-!
# Programs below each other

Two texts, one above the other, spell the program of the first followed by
that of the second, and are refused where the second is.
-/

namespace NumberedBasic

/-- What comes after a text: a line feed and the tokens of further lines. -/
structure FurtherLines where
  newline : Token
  tokens : List Token
  final : Token
  newline_kind : newline.kind = .newline

namespace FurtherLines

variable (further : FurtherLines)

/-- Where the further lines start. -/
def start : Cursor := ⟨further.tokens, further.final⟩

/-- The second cursor holds the tokens of the first and the further lines. -/
def pairing : Pairing where
  lines := 0
  goesOn := True
  Paired cursor cursor' :=
    cursor.final.kind = .endOfInput ∧
      (∀ token ∈ cursor.rest, token.kind ≠ .endOfInput) ∧
        cursor' =
          ⟨cursor.rest ++ further.newline :: further.tokens, further.final⟩
  final hpaired := hpaired.1
  peek := by
    rintro ⟨rest, final⟩ _ ⟨hfinal, -, rfl⟩
    cases rest with
    | nil => exact Or.inr ⟨trivial, hfinal, further.newline_kind⟩
    | cons token rest => exact Or.inl rfl
  skip := by
    rintro ⟨rest, final⟩ _ ⟨hfinal, hrest, rfl⟩ hkind
    cases rest with
    | nil => exact absurd hfinal hkind
    | cons token rest =>
        exact ⟨hfinal, fun token h => hrest token (List.mem_cons_of_mem _ h), rfl⟩
  length := by
    rintro ⟨rest, final⟩ _ ⟨-, -, rfl⟩
    simp

/-- The second cursor holds the further lines after those of the first, or
is where they start. -/
def Joined (cursor cursor' : Cursor) : Prop :=
  further.pairing.Paired cursor cursor' ∨
    cursor.peek.kind = .endOfInput ∧ cursor' = further.start

variable {further} {cursor cursor' later : Cursor}

theorem at_end (hpaired : further.pairing.Paired cursor cursor')
    (hend : cursor.peek.kind = .endOfInput) :
    cursor'.peek.kind = .newline ∧ cursor'.skip = further.start := by
  obtain ⟨rest, final⟩ := cursor
  obtain ⟨-, hrest, rfl⟩ := hpaired
  cases rest with
  | nil => exact ⟨further.newline_kind, rfl⟩
  | cons token rest => exact absurd hend (hrest token List.mem_cons_self)

theorem peek_of_paired (hpaired : further.pairing.Paired cursor cursor')
    (hend : cursor.peek.kind ≠ .endOfInput) :
    cursor'.peek.kind = cursor.peek.kind := by
  rw [Pairing.peek_of_kind hpaired hend]
  rfl

/-- A line that ends with its text ends in the same way with the line feed
after it. -/
theorem line_joined [Host] {line : Line}
    (hpaired : further.pairing.Paired cursor cursor')
    (hline : Parser.line cursor = .ok (line, later)) :
    later.rest.length < cursor.rest.length ∧
      ∃ later', Parser.line cursor' = .ok (line, later') ∧
        further.Joined later later' := by
  have hnumbered := Pairing.readsAlike_numbered cursor cursor' hpaired
  rw [Parser.line_eq, Parser.bind_apply] at hline ⊢
  generalize Parser.numbered cursor = outcome at hnumbered hline
  generalize Parser.numbered cursor' = outcome' at hnumbered
  cases hnumbered with
  | failed failure => cases hline
  | goesOn hmore => cases hline
  | @parsed numbered _ after after' hread hvalues hafter =>
      cases hvalues
      change (Parser.lineEnd after).bind _ = _ at hline
      change _ ∧ ∃ _, (Parser.lineEnd after').bind _ = _ ∧ _
      rw [Parser.lineEnd_apply] at hline ⊢
      by_cases hnewline : after.peek.kind = .newline
      · have hend : after.peek.kind ≠ .endOfInput := hnewline ▸ nofun
        have hlength := Pairing.length_skip hafter hend
        rw [if_pos hnewline] at hline
        rw [if_pos ((peek_of_paired hafter hend).trans hnewline)]
        cases hline
        exact ⟨by omega, _, rfl, Or.inl (further.pairing.skip hafter hend)⟩
      · rw [if_neg hnewline] at hline
        by_cases hend : after.peek.kind = .endOfInput
        · obtain ⟨hnewline', hstart⟩ := at_end hafter hend
          rw [if_pos hend] at hline
          rw [if_pos hnewline']
          cases hline
          exact ⟨by omega, _, rfl, Or.inr ⟨hend, hstart⟩⟩
        · rw [if_neg hend] at hline
          cases hline

/-- After the lines of the first text come the further lines. -/
theorem lines_joined [Host] {rounds : Nat} (rounds' : Nat) {found : List Line}
    {program : Program} (hjoined : further.Joined cursor cursor')
    (hrounds : cursor.rest.length < rounds)
    (hrounds' : cursor.rest.length + further.tokens.length + 1 < rounds')
    (hlines : Parser.lines rounds found cursor = .ok (program, later)) :
    ∃ remaining, further.tokens.length < remaining ∧
      Parser.lines rounds' found cursor' =
        Parser.lines remaining program.reverse further.start := by
  induction rounds generalizing rounds' found cursor cursor' with
  | zero => exact absurd hrounds (Nat.not_lt_zero _)
  | succ rounds ih =>
      rw [Parser.lines_apply] at hlines
      rcases hjoined with hpaired | ⟨hend, rfl⟩
      · obtain ⟨rounds', rfl⟩ := Nat.exists_eq_succ_of_ne_zero
          (Nat.ne_of_gt (Nat.lt_of_le_of_lt (Nat.zero_le _) hrounds'))
        rw [Parser.lines_apply]
        by_cases hend : cursor.peek.kind = .endOfInput
        · obtain ⟨hnewline, hstart⟩ := at_end hpaired hend
          rw [if_pos hend] at hlines
          rw [hnewline, if_neg nofun, if_pos rfl, hstart]
          cases hlines
          rw [List.reverse_reverse]
          exact ⟨rounds', by omega, rfl⟩
        · have hlength := Pairing.length_skip hpaired hend
          rw [if_neg hend] at hlines
          rw [peek_of_paired hpaired hend, if_neg hend]
          by_cases hnewline : cursor.peek.kind = .newline
          · rw [if_pos hnewline] at hlines
            rw [if_pos hnewline]
            exact ih _ (Or.inl (further.pairing.skip hpaired hend)) (by omega)
              (by omega) hlines
          · rw [if_neg hnewline, Parser.bind_apply] at hlines
            rw [if_neg hnewline, Parser.bind_apply]
            cases hline : Parser.line cursor with
            | error failure =>
                rw [hline] at hlines
                cases hlines
            | ok result =>
                obtain ⟨line, after⟩ := result
                obtain ⟨hshorter, after', hline', hafter⟩ :=
                  line_joined hpaired hline
                rw [hline] at hlines
                rw [hline']
                exact ih _ hafter (by omega) (by omega) hlines
      · rw [if_pos hend] at hlines
        cases hlines
        rw [List.reverse_reverse]
        exact ⟨rounds', by omega, rfl⟩

end FurtherLines

theorem Cursor.program_eq [Host] (cursor : Cursor) :
    cursor.program =
      (Parser.lines (cursor.rest.length + 1) [] cursor).map (·.1) := rfl

/-- The program of lines further down, in any number of rounds that is enough
for them. -/
theorem Cursor.program_down [Host] (lines : Nat) (cursor : Cursor)
    (hfinal : cursor.final.kind = .endOfInput) {rounds : Nat}
    (hrounds : cursor.rest.length < rounds) :
    (Parser.lines rounds [] (cursor.down lines)).map (·.1) =
      cursor.program.mapError (ParseFailure.down lines) := by
  have hpaired : (movedDown lines).Paired cursor (cursor.down lines) :=
    ⟨hfinal, rfl⟩
  have hlines := Pairing.outcomes_lines lines [] hpaired
    (Nat.lt_succ_self _) hrounds
  rw [Cursor.program_eq]
  generalize Parser.lines (cursor.rest.length + 1) [] cursor = outcome at *
  generalize Parser.lines rounds [] (cursor.down lines) = outcome' at *
  cases hlines with
  | parsed _ hvalues _ =>
      cases hvalues
      rfl
  | failed failure => rfl
  | goesOn hmore => exact hmore.elim

/-- The programs that tokens and those of further lines spell. -/
theorem Cursor.program_append_lines [Host] {found : List Token} {final : Token}
    {accepted : Program} (hfinal : final.kind = .endOfInput)
    (hfound : ∀ token ∈ found, token.kind ≠ .endOfInput)
    (haccepted : Cursor.program ⟨found, final⟩ = .ok accepted)
    (newline : Token) (hnewline : newline.kind = .newline) (lines : Nat)
    (further : Cursor) (hfurther : further.final.kind = .endOfInput) :
    Cursor.program ⟨found ++ newline :: (further.down lines).rest,
        (further.down lines).final⟩ =
      match further.program with
      | .ok program => .ok (accepted ++ program)
      | .error failure => .error (failure.down lines) := by
  rw [Cursor.program_eq] at haccepted
  dsimp only at haccepted
  cases hlines : Parser.lines (found.length + 1) [] ⟨found, final⟩ with
  | error failure =>
      rw [hlines] at haccepted
      cases haccepted
  | ok result =>
      obtain ⟨program, later⟩ := result
      rw [hlines] at haccepted
      cases haccepted
      let below : FurtherLines :=
        ⟨newline, (further.down lines).rest, (further.down lines).final, hnewline⟩
      obtain ⟨rounds, hrounds, hjoined⟩ := below.lines_joined
        ((found ++ newline :: below.tokens).length + 1)
        (Or.inl ⟨hfinal, hfound, rfl⟩) (Nat.lt_succ_self _) (by simp) hlines
      have hlength : below.tokens.length = further.rest.length :=
        List.length_map _
      have hdown := further.program_down lines hfurther (hlength ▸ hrounds)
      change (Parser.lines rounds [] below.start).map _ = _ at hdown
      rw [Cursor.program_eq]
      refine (congrArg (Except.map (·.1)) hjoined).trans ?_
      rw [Parser.lines_found, List.reverse_reverse]
      generalize Parser.lines rounds [] below.start = outcome at *
      generalize further.program = program' at *
      cases outcome <;> cases program' <;> cases hdown <;> rfl

/-! ## Source texts -/

theorem Cursor.ofTokens?_append {found : List Token} {final : Token}
    (hfound : ∀ token ∈ found, token.kind ≠ .endOfInput)
    (hfinal : final.kind = .endOfInput) :
    Cursor.ofTokens? (found ++ [final]) = some ⟨found, final⟩ := by
  have htaken : (found ++ [final]).takeWhile (·.kind ≠ .endOfInput) = found := by
    rw [List.takeWhile_append_of_pos (by simpa using hfound)]
    simp [hfinal]
  have hlast : (found ++ [final]).find? (·.kind = .endOfInput) = some final := by
    rw [List.find?_append, List.find?_eq_none.mpr (by simpa using hfound)]
    simp [hfinal]
  rw [Cursor.ofTokens?]
  rw [htaken, hlast, if_pos (by simp [hfinal])]
  rfl

theorem Program.parse_of_tokens [Host] {source : String} {found : List Token}
    {final : Token} (hfinal : final.kind = .endOfInput)
    (hfound : ∀ token ∈ found, token.kind ≠ .endOfInput)
    (htokens : tokenise source = .ok (found ++ [final])) :
    Program.parse source = Cursor.program ⟨found, final⟩ := by
  unfold Program.parse Program.ofTokens?
  rw [htokens]
  dsimp only
  rw [Cursor.ofTokens?_append hfound hfinal]
  rfl

theorem toList_append_lines (front back : String) :
    (front ++ "\n" ++ back).toList =
      Lexer.withLines back.toList front.toList := by
  simp [Lexer.withLines]

/-- Where the text after a text and a line feed starts. -/
theorem step_after_newline (text : List Char) :
    (Position.start.after text).step '\n' =
      Position.start.down (text.count '\n' + 1) := by
  rw [Position.step_newline, Position.line_after, Nat.add_comm]
  rfl

theorem tokenise_of_holds {source : String} {found : List Token}
    (hfound : (Lexer.Source.ofString source).Holds found) :
    tokenise source = .ok (found ++
      [⟨.endOfInput, "", (Lexer.Source.ofString source).final⟩]) :=
  hfound.alone

/-- The tokens of two texts, one above the other. -/
theorem tokenise_append_lines {front : String} {found : List Token}
    (hfound : (Lexer.Source.ofString front).Holds found) (back : String) :
    tokenise (front ++ "\n" ++ back) =
      match tokenise back with
      | .ok tokens => .ok (found ++
          ⟨.newline, "\n", (Lexer.Source.ofString front).final⟩ ::
            tokens.map (Token.down (front.toList.count '\n' + 1)))
      | .error error =>
          .error (error.down (front.toList.count '\n' + 1)) := by
  have hdown := Lexer.tokens_down (front.toList.count '\n' + 1)
    (Lexer.Source.ofString back)
  change Lexer.tokens ⟨Position.start.down _, back.toList⟩ = _ at hdown
  change Lexer.tokens ⟨Position.start, (front ++ "\n" ++ back).toList⟩ = _
  rw [toList_append_lines]
  refine (hfound.withLines back.toList).trans ?_
  rw [Lexer.Source.final, Lexer.Source.ofString, step_after_newline, hdown]
  change _ = match Lexer.tokens (Lexer.Source.ofString back) with
    | .ok tokens => _
    | .error error => _
  cases Lexer.tokens (Lexer.Source.ofString back) <;> rfl

/-- The tokens of a text that has a program. -/
theorem Program.exists_holds [Host] {source : String} {program : Program}
    (hsource : Program.parse source = .ok program) :
    ∃ found, (Lexer.Source.ofString source).Holds found := by
  cases htokens : tokenise source with
  | error error =>
      rw [Program.parse, htokens] at hsource
      cases hsource
  | ok all => exact Lexer.Source.exists_holds htokens

theorem Program.parse_below [Host] {front : String} {accepted : Program}
    (hfront : Program.parse front = .ok accepted) (back : String) :
    Program.parse (front ++ "\n" ++ back) =
      match Program.parse back with
      | .ok program => .ok (accepted ++ program)
      | .error failure =>
          .error (failure.down (front.toList.count '\n' + 1)) := by
  obtain ⟨found, hfound⟩ := Program.exists_holds hfront
  rw [Program.parse_of_tokens rfl hfound.kinds (tokenise_of_holds hfound)]
    at hfront
  have hwhole := tokenise_append_lines hfound back
  cases hback : tokenise back with
  | error error =>
      rw [hback] at hwhole
      rw [Program.parse, Program.parse, hback, hwhole]
      rfl
  | ok tokens =>
      obtain ⟨others, hothers⟩ := Lexer.Source.exists_holds hback
      have hlower := Program.parse_of_tokens rfl hothers.kinds
        (tokenise_of_holds hothers)
      rw [hlower, ← Cursor.program_append_lines rfl hfound.kinds hfront
        ⟨.newline, "\n", (Lexer.Source.ofString front).final⟩ rfl _
        ⟨others, _⟩ rfl]
      apply Program.parse_of_tokens rfl
      · intro token htoken
        rcases List.mem_append.mp htoken with hread | hbelow
        · exact hfound.kinds token hread
        · rcases List.mem_cons.mp hbelow with rfl | hmoved
          · exact nofun
          · obtain ⟨other, hother, rfl⟩ := List.mem_map.mp hmoved
            exact hothers.kinds other hother
      · rw [hwhole, tokenise_of_holds hothers]
        simp [Cursor.down]

/-- The program of two texts, one above the other, is that of the first
followed by that of the second, and it is refused where the second is. -/
theorem Program.parse_append_lines [Host] {front : String} {accepted : Program}
    (hfront : Program.parse front = .ok accepted) (back : String) :
    (∀ tokens, tokenise back = .ok tokens →
      ∃ found final, tokenise front = .ok (found ++ [final]) ∧
        final.kind = .endOfInput ∧
        (∀ token ∈ found, token.kind ≠ .endOfInput) ∧
        tokenise (front ++ "\n" ++ back) =
          .ok (found ++ ⟨.newline, "\n", final.position⟩ ::
            tokens.map (Token.down (front.toList.count '\n' + 1)))) ∧
    (∀ program, Program.parse back = .ok program →
      Program.parse (front ++ "\n" ++ back) = .ok (accepted ++ program)) ∧
    (∀ failure, Program.parse back = .error failure →
      Program.parse (front ++ "\n" ++ back) =
        .error (failure.down (front.toList.count '\n' + 1))) := by
  have hparse := Program.parse_below hfront back
  obtain ⟨found, hfound⟩ := Program.exists_holds hfront
  refine ⟨?_, ?_, ?_⟩
  · intro tokens htokens
    refine ⟨found, _, tokenise_of_holds hfound, rfl, hfound.kinds, ?_⟩
    rw [tokenise_append_lines hfound, htokens]
  · intro program hprogram
    rw [hparse, hprogram]
  · intro failure hfailure
    rw [hparse, hfailure]

theorem Program.parse_append_goto :
    Program.parse "END\nREM \"" = .ok [⟨none, .stop⟩, ⟨none, .remark "\""⟩] ∧
      Program.parse ("END\nREM \"" ++ "\n" ++ "GOTO") =
        .error (.refused ⟨.expected .jumpTarget, ⟨3, 5⟩⟩) := by
  have htokens : tokenise "END\nREM \"" =
      .ok [⟨.keyword .endWord, "END", ⟨1, 1⟩⟩, ⟨.newline, "\n", ⟨1, 4⟩⟩,
        ⟨.keyword .remWord, "REM", ⟨2, 1⟩⟩, ⟨.string, "\"", ⟨2, 5⟩⟩,
        ⟨.endOfInput, "", ⟨2, 6⟩⟩] := by rfl
  have hfront : Program.parse "END\nREM \"" =
      .ok [⟨none, .stop⟩, ⟨none, .remark "\""⟩] := by
    rw [Program.parse]
    rw [htokens]
    rfl
  have hback : Program.parse "GOTO" =
      .error (.refused ⟨.expected .jumpTarget, ⟨1, 5⟩⟩) := by rfl
  exact ⟨hfront, (Program.parse_append_lines hfront "GOTO").2.2 _ hback⟩

end NumberedBasic
