import NumberedBasic.Proofs.Grammar.StatementComplete
import NumberedBasic.Proofs.Parsing.Joined

/-!
# The parser of programs is its grammar

The tokens of a program are read line by line.  The program that the parser
answers with is the one that they derive within the host's limit on nesting.
What derives a program only at a greater depth it refuses as nested too deeply.
-/

namespace NumberedBasic

namespace Parser

variable {cursor later : Cursor} {tokens : List Token} {line : Line}

/-! ## Lines -/

theorem starts_of_line {depth : Nat} (hline : Line.Derives depth tokens line)
    (later : Cursor) :
    (later.before tokens).peek.kind.endsStatement = false := by
  cases hline with
  | numbered hnumber _ =>
      rw [Cursor.peek_before, hnumber.kind]
      rfl
  | unnumbered hbody =>
      have hbranch := (starts_of_statement hbody later).2
      rw [TokenKind.endsBranch, Bool.or_eq_false_iff] at hbranch
      exact hbranch.1

theorem rest_eq_nil (hend : cursor.peek.kind = .endOfInput)
    (hrest : ∀ token ∈ cursor.rest, token.kind ≠ .endOfInput) :
    cursor.rest = [] := by
  obtain ⟨rest, final⟩ := cursor
  cases rest with
  | nil => rfl
  | cons token rest => exact absurd hend (hrest token List.mem_cons_self)

theorem last_of_derives {depth : Nat} {tokens : List Token} {program : Program}
    (hderives : Program.Derives depth tokens program) :
    ∃ body final, tokens = body ++ [final] ∧ final.kind = .endOfInput := by
  induction hderives with
  | finish hfinal => exact ⟨[], _, rfl, hfinal⟩
  | lastLine _ hfinal => exact ⟨_, _, rfl, hfinal⟩
  | blank _ _ ih =>
      obtain ⟨body, final, rfl, hfinal⟩ := ih
      exact ⟨_ :: body, final, rfl, hfinal⟩
  | @line front _ newline _ _ _ _ _ ih =>
      obtain ⟨body, final, rfl, hfinal⟩ := ih
      exact ⟨front ++ newline :: body, final, by simp, hfinal⟩

variable [Host]

theorem sound_numbered : Sound numbered (Line.Derives Host.nesting) := by
  intro cursor later line hparse hfinal
  obtain ⟨number?, between, hnumber, hrest⟩ := exists_of_bind hparse
  obtain ⟨body, after, hstatement, hlast⟩ := exists_of_bind hrest
  obtain ⟨numeral?, afterNumeral, haccept, hnext⟩ := exists_of_bind hnumber
  obtain ⟨read, rfl, hread⟩ := sound_acceptNumeral haccept hfinal
  cases hlast
  cases numeral? with
  | none =>
      cases hnext
      obtain rfl := hread
      obtain ⟨⟨tokens, rfl, hbody⟩, -⟩ :=
        soundPhrase_statement Host.nesting hstatement hfinal
      exact ⟨tokens, rfl, .unnumbered hbody⟩
  | some numeral =>
      obtain ⟨rfl, hnumeral⟩ := hread
      obtain ⟨number, afterNumber, hvalue, hsome⟩ := exists_of_bind hnext
      obtain ⟨rfl, hline⟩ := isLineNumber_of_lineNumber hnumeral hvalue
      cases hsome
      obtain ⟨⟨tokens, rfl, hbody⟩, -⟩ :=
        soundPhrase_statement Host.nesting hstatement hfinal
      exact ⟨numeral :: tokens, rfl, .numbered hline hbody⟩

/-- A line that is read is followed by a line feed or by the end of input. -/
theorem exists_of_line (hparse : Parser.line cursor = .ok (line, later))
    (hfinal : cursor.final.kind = .endOfInput) :
    ∃ tokens, Line.Derives Host.nesting tokens line ∧
      ((∃ newline : Token, newline.kind = .newline ∧
          cursor = later.before (tokens ++ [newline])) ∨
        later.peek.kind = .endOfInput ∧ cursor = later.before tokens) := by
  rw [line_eq] at hparse
  obtain ⟨_, between, hnumbered, hrest⟩ := exists_of_bind hparse
  obtain ⟨tokens, rfl, hderives⟩ := sound_numbered hnumbered hfinal
  obtain ⟨_, after, hend, hlast⟩ := exists_of_bind hrest
  cases hlast
  refine ⟨tokens, hderives, ?_⟩
  rw [lineEnd_apply] at hend
  split at hend
  next hnewline =>
    cases hend
    refine Or.inl ⟨between.peek, hnewline, ?_⟩
    rw [← Cursor.before_before,
      ← between.eq_before (hnewline ▸ nofun) hfinal]
  next =>
    split at hend
    next hendOfInput =>
      cases hend
      exact Or.inr ⟨hendOfInput, rfl⟩
    next => cases hend

theorem numbered_read {depth : Nat} (hline : Line.Derives depth tokens line)
    (hend : later.peek.kind.endsStatement = true) :
    AgreesUnless (Host.nesting < depth)
      (numbered (later.before tokens)) (.ok (line, later)) := by
  have hbranch : later.peek.kind.endsBranch = true := by
    rw [TokenKind.endsBranch, hend]
    rfl
  have helse : later.peek.kind ≠ .keyword .elseWord := by
    intro hkind
    rw [hkind] at hend
    cases hend
  cases hline with
  | @numbered numeral number tokens body hnumber hbody =>
      have hstatement := reads_of_phrase hbody Host.nesting later hbranch
        fun _ => helse
      have hnumeral : numberIfAny (later.before (numeral :: tokens)) =
          .ok (some number, later.before tokens) := by
        rw [numberIfAny, bind_apply, acceptNumeral_read hnumber.kind]
        change (lineNumber numeral >>= _) (later.before tokens) = _
        rw [bind_apply, lineNumber_read hnumber]
        rfl
      rw [Parser.numbered, bind_apply, hnumeral]
      exact hstatement.map _
  | unnumbered hbody =>
      have hstatement := reads_of_phrase hbody Host.nesting later hbranch
        fun _ => helse
      have hnumeral : numberIfAny (later.before tokens) =
          .ok (none, later.before tokens) := by
        rw [numberIfAny, bind_apply,
          acceptNumeral_leave (starts_of_statement hbody later).1]
        rfl
      rw [Parser.numbered, bind_apply, hnumeral]
      exact hstatement.map _

/-- A line in front of its end. -/
theorem line_read {depth : Nat} {next : Cursor}
    (hline : Line.Derives depth tokens line)
    (hend : later.peek.kind.endsStatement = true)
    (hnext : lineEnd later = .ok ((), next)) :
    AgreesUnless (Host.nesting < depth)
      (Parser.line (later.before tokens)) (.ok (line, next)) := by
  rw [line_eq]
  apply (numbered_read hline hend).bind
  rw [bind_apply, hnext]
  exact .refl _ _

/-! ## Lines one after another -/

theorem lines_at_end (hend : cursor.peek.kind = .endOfInput) (rounds : Nat)
    (found : List Line) :
    lines rounds found cursor = .ok (found.reverse, cursor) := by
  cases rounds with
  | zero => rfl
  | succ rounds => rw [lines_apply, if_pos hend]

/-- The first line that is read and the others. -/
theorem exists_of_lines_cons {rounds : Nat} {program : Program}
    (hparse : (Parser.line >>= fun line => lines rounds [line]) cursor =
      .ok (program, later)) :
    ∃ line after others, Parser.line cursor = .ok (line, after) ∧
      lines rounds [] after = .ok (others, later) ∧ program = line :: others := by
  obtain ⟨line, after, hline, hothers⟩ := exists_of_bind hparse
  rw [lines_found] at hothers
  cases hlines : lines rounds [] after with
  | error failure =>
      rw [hlines] at hothers
      cases hothers
  | ok result =>
      rw [hlines] at hothers
      cases hothers
      exact ⟨line, after, result.1, hline, hlines, rfl⟩

/-- The lines that are read are those that the tokens derive. -/
theorem derives_of_lines {rounds : Nat} {program : Program}
    (hparse : lines rounds [] cursor = .ok (program, later))
    (hfinal : cursor.final.kind = .endOfInput)
    (hrest : ∀ token ∈ cursor.rest, token.kind ≠ .endOfInput)
    (hrounds : cursor.rest.length < rounds) :
    Program.Derives Host.nesting (cursor.rest ++ [cursor.final]) program := by
  induction rounds generalizing cursor program with
  | zero => exact absurd hrounds (Nat.not_lt_zero _)
  | succ rounds ih =>
      rw [lines_apply] at hparse
      split at hparse
      next hend =>
        cases hparse
        rw [rest_eq_nil hend hrest]
        exact .finish hfinal
      next hend =>
        split at hparse
        next hnewline =>
          rw [cursor.eq_before hend hfinal] at hrest hrounds ⊢
          apply Program.Derives.blank hnewline
          apply ih hparse hfinal
          · exact fun token htoken => hrest token (List.mem_cons_of_mem _ htoken)
          · exact Nat.lt_of_succ_lt_succ hrounds
        next =>
          obtain ⟨line, after, others, hline, hothers, rfl⟩ :=
            exists_of_lines_cons hparse
          obtain ⟨front, hderives, ⟨newline, hnewline, rfl⟩ | ⟨hafter, rfl⟩⟩ :=
            exists_of_line hline hfinal
          · have hafter : ∀ token ∈ after.rest, token.kind ≠ .endOfInput :=
              fun token htoken => hrest token (List.mem_append_right _ htoken)
            have hlength : after.rest.length < rounds := by
              simp only [Cursor.before, List.length_append,
                List.length_singleton] at hrounds
              omega
            simpa [Cursor.before] using
              Program.Derives.line hderives hnewline
                (ih hothers hfinal hafter hlength)
          · have hnothing := rest_eq_nil hafter
              fun token htoken => hrest token (List.mem_append_right _ htoken)
            rw [lines_at_end hafter] at hothers
            cases hothers
            rw [Cursor.before, hnothing, List.append_nil]
            exact .lastLine hderives hfinal

/-- A line and what follows it. -/
theorem lines_cons {deep : Prop} {rounds : Nat} {others : Program}
    {next last : Cursor}
    (hline : AgreesUnless deep (Parser.line cursor) (.ok (line, next)))
    (hkind : cursor.peek.kind.endsStatement = false)
    (hothers : AgreesUnless deep (lines rounds [] next) (.ok (others, last))) :
    AgreesUnless deep (lines (rounds + 1) [] cursor)
      (.ok (line :: others, last)) := by
  rw [TokenKind.endsStatement, Bool.or_eq_false_iff] at hkind
  rw [lines_apply, if_neg (of_decide_eq_false hkind.2),
    if_neg (of_decide_eq_false hkind.1)]
  apply hline.bind
  rw [lines_found]
  exact hothers.except_map _

/-- The tokens that derive a program are read as that program. -/
theorem lines_of_derives {depth : Nat} {tokens : List Token} {program : Program}
    (hderives : Program.Derives depth tokens program) {rest : List Token}
    {final : Token} (htokens : tokens = rest ++ [final])
    (hfinal : final.kind = .endOfInput) {rounds : Nat}
    (hrounds : rest.length < rounds) :
    AgreesUnless (Host.nesting < depth) (lines rounds [] ⟨rest, final⟩)
      (.ok (program, ⟨[], final⟩)) := by
  induction hderives generalizing rest rounds with
  | @finish other _ =>
      obtain ⟨rfl, -⟩ := List.append_inj'
        (show [] ++ [other] = rest ++ [final] from htokens) rfl
      have hends : (⟨[], final⟩ : Cursor).peek.kind = .endOfInput := hfinal
      rw [lines_at_end hends]
      exact .refl _ _
  | @lastLine tokens other line hline _ =>
      obtain ⟨rfl, hsame⟩ := List.append_inj' htokens rfl
      cases hsame
      obtain ⟨rounds, rfl⟩ :=
        Nat.exists_eq_add_one.mpr (Nat.zero_lt_of_lt hrounds)
      let ending : Cursor := ⟨[], final⟩
      have hends : ending.peek.kind = .endOfInput := hfinal
      have hlast : lineEnd ending = .ok ((), ending) := by
        rw [lineEnd_apply, hends]
        rfl
      have hread := line_read hline (by rw [hends]; rfl) hlast
      have hstarts := starts_of_line hline ending
      rw [Cursor.before] at hread hstarts
      rw [List.append_nil] at hread hstarts
      apply lines_cons hread hstarts
      rw [lines_at_end hends]
      exact .refl _ _
  | @blank newline tokens program hnewline hothers ih =>
      obtain ⟨body, other, rfl, _⟩ := last_of_derives hothers
      obtain ⟨rfl, hsame⟩ := List.append_inj'
        (show (newline :: body) ++ [other] = rest ++ [final] from htokens) rfl
      cases hsame
      obtain ⟨rounds, rfl⟩ :=
        Nat.exists_eq_add_one.mpr (Nat.zero_lt_of_lt hrounds)
      have hpeek : (⟨newline :: body, final⟩ : Cursor).peek.kind = .newline :=
        hnewline
      rw [lines_apply, hpeek, if_neg TokenKind.noConfusion, if_pos rfl]
      exact ih rfl (Nat.lt_of_succ_lt_succ hrounds)
  | @line front back newline line others hline hnewline hothers ih =>
      obtain ⟨body, other, rfl, _⟩ := last_of_derives hothers
      obtain ⟨rfl, hsame⟩ := List.append_inj'
        (show (front ++ newline :: body) ++ [other] = rest ++ [final] by
          simpa using htokens) rfl
      cases hsame
      obtain ⟨rounds, rfl⟩ :=
        Nat.exists_eq_add_one.mpr (Nat.zero_lt_of_lt hrounds)
      let below : Cursor := ⟨newline :: body, final⟩
      have hends : below.peek.kind = .newline := hnewline
      have hnext : lineEnd below = .ok ((), ⟨body, final⟩) := by
        rw [lineEnd_apply, hends]
        rfl
      have hread := line_read hline (by rw [hends]; rfl) hnext
      rw [List.length_append, List.length_cons] at hrounds
      exact lines_cons hread (starts_of_line hline below) (ih rfl (by omega))

section Whole

variable {body : List Token} {final : Token} {program : Program}
  (hfinal : final.kind = .endOfInput)

include hfinal

theorem derives_of_program (hbody : ∀ token ∈ body, token.kind ≠ .endOfInput)
    (hparse : Cursor.program ⟨body, final⟩ = .ok program) :
    Program.Derives Host.nesting (body ++ [final]) program := by
  rw [Cursor.program_eq] at hparse
  cases hlines : lines (body.length + 1) [] ⟨body, final⟩ with
  | error failure =>
      rw [hlines] at hparse
      cases hparse
  | ok result =>
      rw [hlines] at hparse
      cases hparse
      exact derives_of_lines hlines hfinal hbody (Nat.lt_succ_self _)

theorem program_of_derives {depth : Nat}
    (hderives : Program.Derives depth (body ++ [final]) program) :
    AgreesUnless (Host.nesting < depth) (Cursor.program ⟨body, final⟩)
      (.ok program) := by
  have hlines := lines_of_derives hderives rfl hfinal (Nat.lt_succ_self _)
  exact hlines.except_map (·.1)

/-- What the tokens derive is read, or refused as nested too deeply if they
derive it only beyond the limit. -/
theorem agreesUnless_derives {depth : Nat}
    (hderives : Program.Derives depth (body ++ [final]) program) :
    AgreesUnless (¬Program.Derives Host.nesting (body ++ [final]) program)
      (Cursor.program ⟨body, final⟩) (.ok program) := by
  by_cases hshallow : Program.Derives Host.nesting (body ++ [final]) program
  · left
    exact (program_of_derives hfinal hshallow).resolve_right
      fun hdeep => Nat.lt_irrefl _ hdeep.1
  · exact (program_of_derives hfinal hderives).imp_right
      fun hdeep => ⟨hshallow, hdeep.2⟩

end Whole

end Parser

/-- The tokens of a program that is read derive it. -/
theorem Program.exists_derives [Host] {source : String} {program : Program}
    (hparse : Program.parse source = .ok program) :
    ∃ tokens, tokenise source = .ok tokens ∧
      Program.Derives Host.nesting tokens program := by
  obtain ⟨found, hfound⟩ := Program.exists_holds hparse
  have htokens := tokenise_of_holds hfound
  rw [Program.parse_of_tokens rfl hfound.kinds htokens] at hparse
  exact ⟨_, htokens, Parser.derives_of_program rfl hfound.kinds hparse⟩

open NumberedBasic.Parser in
/-- A list of tokens of which only the last ends the input spells a program
exactly if it derives that program within the limit on nesting.  What derives a
program at some depth is read if the limit is not less, and it is refused as
nested too deeply if there is no derivation within the limit, and only then. -/
theorem Program.ofTokens?_eq_ok_iff [Host] {body : List Token} {final : Token}
    {program : Program} (hfinal : final.kind = .endOfInput)
    (hbody : ∀ token ∈ body, token.kind ≠ .endOfInput) :
    (Program.ofTokens? (body ++ [final]) = some (.ok program) ↔
      Program.Derives Host.nesting (body ++ [final]) program) ∧
    ∀ depth, Program.Derives depth (body ++ [final]) program →
      (depth ≤ Host.nesting →
        Program.ofTokens? (body ++ [final]) = some (.ok program)) ∧
      ((∃ outcome, Program.ofTokens? (body ++ [final]) = some outcome ∧
          TooDeep outcome) ↔
        ¬Program.Derives Host.nesting (body ++ [final]) program) := by
  have hcursor : Program.ofTokens? (body ++ [final]) =
      some (Cursor.program ⟨body, final⟩) := by
    rw [Program.ofTokens?, Cursor.ofTokens?_append hbody hfinal]
    rfl
  have hread {depth : Nat} (hdepth : depth ≤ Host.nesting)
      (hderives : Program.Derives depth (body ++ [final]) program) :
      Cursor.program ⟨body, final⟩ = .ok program :=
    (program_of_derives hfinal hderives).resolve_right
      fun hdeep => Nat.not_lt.mpr hdepth hdeep.1
  have hsound (hparse : Cursor.program ⟨body, final⟩ = .ok program) :=
    derives_of_program hfinal hbody hparse
  rw [hcursor]
  simp only [Option.some.injEq, exists_eq_left']
  refine ⟨⟨hsound, hread (Nat.le_refl _)⟩, fun depth hderives => ⟨?_, ?_, ?_⟩⟩
  · exact fun hdepth => hread hdepth hderives
  · exact fun hdeep hshallow => hdeep.ne_ok _ (hread (Nat.le_refl _) hshallow)
  · intro hdeep
    rcases agreesUnless_derives hfinal hderives with hok | ⟨-, hrefused⟩
    · exact absurd (hsound hok) hdeep
    · exact hrefused

/-- IF A THEN IF B THEN PRINT C; ELSE 20, a blank line, and 20 REM. -/
def dangling : List Token :=
  [(.keyword .ifWord, "IF"), (.identifier, "A"), (.keyword .thenWord, "THEN"),
    (.keyword .ifWord, "IF"), (.identifier, "B"), (.keyword .thenWord, "THEN"),
    (.keyword .printWord, "PRINT"), (.identifier, "C"), (.sign .semicolon, ";"),
    (.keyword .elseWord, "ELSE"), (.number, "20"), (.newline, "\n"),
    (.newline, "\n"), (.number, "20"), (.keyword .remWord, "REM")].map
      fun (kind, text) => ⟨kind, text, Position.start⟩

theorem Program.ofTokens?_eq_ok_iff_of_dangling :
    Program.Derives Host.nesting (dangling ++ [⟨.endOfInput, "", Position.start⟩])
      [⟨none, .ifThen (.reference "A" [])
          (.ifElse (.reference "B" [])
            (.print [.reference "C" []] [] (some .semicolon))
            (.goto (some 20)))⟩,
        ⟨some 20, .remark ""⟩] := by
  have hbody : ∀ token ∈ dangling, token.kind ≠ .endOfInput := by decide
  exact (Program.ofTokens?_eq_ok_iff rfl hbody).1.mp rfl

end NumberedBasic
