import NumberedBasic.Proofs.Grammar.Program
import NumberedBasic.Proofs.Refusal.Statement

/-!
# The token to blame in a program

A program that is refused has a first token with which no program that begins
like it can go on.  The complaint points to that token, or to the one after it
if a line number has a decimal point.  The only other failure is an overlong
line number, and it is that token then.
-/

namespace NumberedBasic

namespace Parser

/-! ## Lines -/

def IsNumberIfAny (tokens : List Token) : Option Int → Prop
  | none => tokens = []
  | some number => ∃ numeral, tokens = [numeral] ∧ numeral.IsLineNumber number

theorem derives_of_numberIfAny {depth : Nat} {front back : List Token}
    {number? : Option Int} {body : Statement} (hnumber : IsNumberIfAny front number?)
    (hbody : Phrase.statement.Derives depth back body) :
    Line.Derives depth (front ++ back) ⟨number?, body⟩ := by
  cases number? with
  | none =>
      obtain rfl := hnumber
      exact .unnumbered hbody
  | some number =>
      obtain ⟨numeral, rfl, hnumeral⟩ := hnumber
      exact .numbered hnumeral hbody

theorem sound_numberIfAny : Sound numberIfAny IsNumberIfAny := by
  apply sound_acceptNumeral.bind
  intro read numeral? hread
  cases numeral? with
  | none =>
      obtain rfl := hread
      exact sound_pure rfl
  | some numeral =>
      obtain ⟨rfl, hnumeral⟩ := hread
      apply (sound_lineNumber hnumeral).map
      rintro _ number ⟨rfl, hnumber⟩
      exact ⟨numeral, rfl, hnumber⟩

theorem pinpoints_numberIfAny : Pinpoints numberIfAny IsNumberIfAny := by
  apply pinpoints_acceptNumeral_bind some converts_lineNumber
  · have hnumber : IsNumberIfAny [TokenKind.number.sample] (some 0) :=
      ⟨_, rfl, isLineNumber_sample⟩
    exact completes_spelling _ hnumber (by decide)
  · exact fun _ => rfl
  · exact pinpoints_pure none

variable [Host]

theorem pinpoints_numbered :
    Pinpoints numbered (Line.Derives (Host.nesting + 12)) := by
  apply pinpoints_numberIfAny.bind sound_numberIfAny
  · intro front number? hnumber
    exact ⟨[.keyword .endWord], completes_spelling _
      (derives_of_numberIfAny hnumber derives_end) (by decide)⟩
  · intro front number? hnumber
    apply (pinpoints_statement Host.nesting).map
    exact fun _ _ hbody => derives_of_numberIfAny hnumber hbody

/-- A line, and maybe the line feed after it.  What a failure leaves to be
completed may go twelve rules beyond the limit. -/
inductive IsLine : List Token → Line → Prop where
  | bare {tokens : List Token} {line : Line}
      (hline : Line.Derives (Host.nesting + 12) tokens line) : IsLine tokens line
  | ended {tokens : List Token} {newline : Token} {line : Line}
      (hline : Line.Derives (Host.nesting + 12) tokens line)
      (hnewline : newline.kind = .newline) :
      IsLine (tokens ++ [newline]) line

theorem sound_numbered_deeper :
    Sound numbered (Line.Derives (Host.nesting + 12)) :=
  sound_numbered.imp fun _ _ hline => hline.mono (Nat.le_add_right _ _)

theorem sound_line : Sound Parser.line IsLine := by
  intro cursor later line hparse hfinal
  obtain ⟨tokens, hline, ⟨newline, hnewline, hcursor⟩ | ⟨-, hcursor⟩⟩ :=
    exists_of_line hparse hfinal
  · exact ⟨_, hcursor, .ended (hline.mono (Nat.le_add_right _ _)) hnewline⟩
  · exact ⟨_, hcursor, .bare (hline.mono (Nat.le_add_right _ _))⟩

theorem pinpoints_line : Pinpoints Parser.line IsLine := by
  rw [line_eq]
  apply pinpoints_numbered.bind sound_numbered_deeper
  · exact fun _ _ hline => completes_nothing (.bare hline)
  · intro front line hline cursor hfinal
    have hpure (later : Cursor) (hlater : later.final.kind = .endOfInput)
        (spells : List Token → Line → Prop) : PinpointsAt (pure line) spells later :=
      pinpoints_pure line later hlater
    by_cases hnewline : cursor.peek.kind = .newline
    · apply (hpure cursor.skip hfinal _).read hfinal (by simp [hnewline])
      intro other _
      rw [bind_apply, lineEnd_apply, Cursor.peek_before, if_pos hnewline]
      rfl
    · by_cases hend : cursor.peek.kind = .endOfInput
      · apply (hpure cursor hfinal _).congr hfinal
        intro other hother
        rw [bind_apply, lineEnd_apply, hother.peek, if_neg hnewline, if_pos hend]
        rfl
      · have hline : IsLine (front ++ []) line := by
          rw [List.append_nil]
          exact .bare hline
        apply pinpointsAt_here hfinal _ (completes_spelling [] hline nofun)
        · intro other hother
          rw [bind_apply, lineEnd_apply, hother.peek, if_neg hnewline, if_neg hend,
            Cursor.unexpected, hother.peek]
          rfl
        · exact fun _ => SyntaxCause.noConfusion

/-! ## Programs -/

/-- Whatever ends the input, the tokens before it derive the program. -/
def IsProgram (tokens : List Token) (program : Program) : Prop :=
  ∀ final : Token, final.kind = .endOfInput →
    Program.Derives (Host.nesting + 12) (tokens ++ [final]) program

theorem isProgram_cons {front back : List Token} {newline : Token}
    {line : Line} {others : Program}
    (hline : Line.Derives (Host.nesting + 12) front line)
    (hnewline : newline.kind = .newline) (hothers : IsProgram back others) :
    IsProgram (front ++ [newline] ++ back) (line :: others) := by
  intro final hfinal
  simpa using Program.Derives.line hline hnewline (hothers final hfinal)

theorem length_lt_of_line {cursor later : Cursor} {line : Line}
    (hline : Parser.line cursor = .ok (line, later))
    (hfinal : cursor.final.kind = .endOfInput) :
    later.rest.length < cursor.rest.length := by
  have halike := Pairing.readsAlike_line 0 cursor cursor (Cursor.paired_self hfinal)
  rw [hline] at halike
  cases halike with
  | parsed hread _ _ => exact hread

theorem isProgram_of_isLine {tokens : List Token} {line : Line}
    (hline : IsLine tokens line) : IsProgram tokens [line] := by
  intro final hfinal
  cases hline with
  | bare hline => exact .lastLine hline hfinal
  | ended hline hnewline =>
      simpa using Program.Derives.line hline hnewline (.finish hfinal)

/-- The lines after the first are a program themselves. -/
theorem program_apply {cursor : Cursor}
    (hfinal : cursor.final.kind = .endOfInput) :
    Parser.program cursor =
      if cursor.peek.kind = .endOfInput then .ok ([], cursor)
      else if cursor.peek.kind = .newline then Parser.program cursor.skip
      else (do
        let line ← Parser.line
        return line :: (← Parser.program)) cursor := by
  change lines (cursor.rest.length + 1) [] cursor = _
  rw [lines_apply]
  split
  next => rfl
  next hend =>
    split
    next =>
      change _ = lines (cursor.skip.rest.length + 1) [] cursor.skip
      rw [Pairing.length_skip (Cursor.paired_self hfinal) hend]
    next =>
      rw [bind_apply, bind_apply]
      cases hline : Parser.line cursor with
      | error failure => rfl
      | ok result =>
          obtain ⟨line, later⟩ := result
          obtain ⟨tokens, rfl, -⟩ := sound_line hline hfinal
          have hlater : later.final.kind = .endOfInput := hfinal
          have hrounds := (Pairing.outcomes_lines 0 [] (Cursor.paired_self hlater)
            (length_lt_of_line hline hfinal) (Nat.lt_succ_self _)).eq
          change lines (later.before tokens).rest.length [line] later =
            (lines (later.rest.length + 1) [] later).bind _
          rw [lines_found, hrounds]
          cases lines (later.rest.length + 1) [] later <;> rfl

theorem pinpoints_program : Pinpoints Parser.program IsProgram := by
  intro cursor hfinal
  induction hlength : cursor.rest.length using Nat.strongRecOn
    generalizing cursor with
  | ind length ih =>
      by_cases hend : cursor.peek.kind = .endOfInput
      · apply (pinpoints_pure [] cursor hfinal).congr hfinal
        intro other hother
        rw [program_apply hother.final, hother.peek, if_pos hend]
        rfl
      by_cases hnewline : cursor.peek.kind = .newline
      · have hskip := Pairing.length_skip (Cursor.paired_self hfinal) hend
        have hothers : PinpointsAt Parser.program
            (fun tokens => IsProgram (cursor.peek :: tokens)) cursor.skip :=
          (ih _ (by omega) cursor.skip hfinal rfl).imp fun _ _ hothers final hlast =>
            .blank hnewline (hothers final hlast)
        apply hothers.read hfinal hend
        intro other hother
        have hbefore : (other.before [cursor.peek]).final.kind = .endOfInput :=
          hother
        rw [program_apply hbefore, Cursor.peek_before, if_neg hend,
          if_pos hnewline]
        rfl
      · have hlines : PinpointsAt (do
            let line ← Parser.line
            return line :: (← Parser.program)) IsProgram cursor := by
          apply (pinpoints_line cursor hfinal).bind sound_line hfinal
          · exact fun _ _ hline => completes_nothing (isProgram_of_isLine hline)
          · intro front later line hparse hcursor _
            have hlater := Cursor.ends_of_eq_before hcursor hfinal
            obtain ⟨tokens, hline, ⟨newline, hnewline, hread⟩ | ⟨hend, -⟩⟩ :=
              exists_of_line hparse hfinal
            · obtain rfl := Cursor.before_injective (hcursor.symm.trans hread)
              have hshorter := length_lt_of_line hparse hfinal
              apply (ih _ (hlength ▸ hshorter) later hlater rfl).map
              have hline := hline.mono (Nat.le_add_right _ 12)
              exact fun _ _ hothers => isProgram_cons hline hnewline hothers
            · apply (pinpoints_pure [line] later hlater).congr hlater
              intro other hother
              rw [bind_apply, program_apply hother.final, hother.peek, if_pos hend]
              rfl
        apply hlines.congr hfinal
        intro other hother
        rw [program_apply hother.final, hother.peek, if_neg hend, if_neg hnewline]

end Parser

/-! ## The first token that does not fit -/

/-- Tokens that begin a program begin none with one more token after them.
What completes them makes them a program that is accepted, unless its nesting is
beyond the limit, which it exceeds by twelve rules at most. -/
structure FirstUnviable [Host] (front : List Token) (offending : Token) : Prop where
  begins : ∃ rest program outcome,
    Program.Derives (Host.nesting + 12) (front ++ rest) program ∧
    Program.ofTokens? (front ++ rest) = some outcome ∧
    Parser.AgreesUnless (¬Program.Derives Host.nesting (front ++ rest) program)
      outcome (.ok program)
  underivable : ∀ depth rest program,
    ¬Program.Derives depth (front ++ offending :: rest) program
  refused : ∀ rest program,
    Program.ofTokens? (front ++ offending :: rest) ≠ some (.ok program)

/-- There is one such token at most among any tokens. -/
theorem FirstUnviable.unique [Host] {front front' back back' : List Token}
    {offending offending' : Token} (hfirst : FirstUnviable front offending)
    (hfirst' : FirstUnviable front' offending')
    (htokens : front ++ offending :: back = front' ++ offending' :: back') :
    front = front' ∧ offending = offending' := by
  have hnone {front front' back back' : List Token} {offending offending' : Token}
      (hfirst : FirstUnviable front offending)
      (hfirst' : FirstUnviable front' offending')
      (htokens : front ++ offending :: back = front' ++ offending' :: back') :
      ¬front.length < front'.length := by
    intro hlonger
    have hshorter : front ++ [offending] <+: front' ++ offending' :: back' :=
      ⟨back, by rw [← htokens, List.append_assoc, List.singleton_append]⟩
    have hlength : (front ++ [offending]).length ≤ front'.length := by
      rw [List.length_append]
      exact hlonger
    obtain ⟨more, hmore⟩ := List.prefix_of_prefix_length_le hshorter
      (List.prefix_append _ _) hlength
    obtain ⟨rest, program, -, hderives, -⟩ := hfirst'.begins
    rw [← hmore] at hderives
    exact hfirst.underivable _ (more ++ rest) program (by simpa using hderives)
  have hlength : front.length = front'.length := by
    have hle := hnone hfirst hfirst' htokens
    have hge := hnone hfirst' hfirst htokens.symm
    omega
  obtain ⟨hfront, hback⟩ := List.append_inj htokens hlength
  exact ⟨hfront, (List.cons.inj hback).1⟩

section Refused

variable {front : List Token} {closing : List TokenKind}

open NumberedBasic.Parser

theorem begins_of_completes [Host]
    (hfront : ∀ token ∈ front, token.kind ≠ .endOfInput)
    (hcompletes : Completes closing fun back => IsProgram (front ++ back)) :
    ∃ rest program outcome,
      Program.Derives (Host.nesting + 12) (front ++ rest) program ∧
      Program.ofTokens? (front ++ rest) = some outcome ∧
      AgreesUnless (¬Program.Derives Host.nesting (front ++ rest) program)
        outcome (.ok program) := by
  obtain ⟨program, hprogram⟩ := hcompletes.spelled
  let body := front ++ closing.map TokenKind.sample
  let final := TokenKind.endOfInput.sample
  have hderives : Program.Derives (Host.nesting + 12) (body ++ [final]) program :=
    hprogram final rfl
  have hbody : ∀ token ∈ body, token.kind ≠ .endOfInput := by
    intro token htoken
    rcases List.mem_append.mp htoken with hread | hsample
    · exact hfront token hread
    · obtain ⟨kind, hkind, rfl⟩ := List.mem_map.mp hsample
      exact hcompletes.inner kind hkind
  have hwhole : front ++ (closing.map TokenKind.sample ++ [final]) =
      body ++ [final] := (List.append_assoc _ _ _).symm
  refine ⟨closing.map TokenKind.sample ++ [final], program,
    Cursor.program ⟨body, final⟩, ?_⟩
  rw [hwhole]
  refine ⟨hderives, ?_, ?_⟩
  · rw [Program.ofTokens?, Cursor.ofTokens?_append hbody rfl]
    rfl
  · exact agreesUnless_derives rfl hderives

theorem program_eq_error_iff [Host] {cursor : Cursor} {failure : ParseFailure} :
    cursor.program = .error failure ↔ Parser.program cursor = .error failure := by
  change (Parser.program cursor).map _ = _ ↔ _
  cases Parser.program cursor with
  | error other => simp [Except.map]
  | ok result => simp [Except.map]

/-- Where tokens end the input after the one in question, the cursor comes to
it after the tokens in front. -/
theorem exists_resembles {front body rest : List Token} {final : Token}
    {later : Cursor} (hfinal : final.kind = .endOfInput)
    (htokens : front ++ later.peek :: rest = body ++ [final]) :
    ∃ other : Cursor, (⟨body, final⟩ : Cursor) = other.before front ∧
      other.Resembles later := by
  rcases List.eq_nil_or_concat rest with rfl | ⟨more, last, rfl⟩
  · obtain ⟨rfl, hlast⟩ := List.append_inj' htokens rfl
    refine ⟨⟨[], final⟩, ?_, hfinal, (List.cons.inj hlast).1.symm⟩
    rw [Cursor.before, List.append_nil]
  · rw [List.concat_eq_append, ← List.cons_append, ← List.append_assoc] at htokens
    obtain ⟨rfl, hlast⟩ := List.append_inj' htokens rfl
    exact ⟨⟨later.peek :: more, final⟩, rfl, hfinal, rfl⟩

theorem firstUnviable_of_fails [Host] {failure : ParseFailure} {later : Cursor}
    (hfront : ∀ token ∈ front, token.kind ≠ .endOfInput)
    (hcompletes : Completes closing fun back => IsProgram (front ++ back))
    (hdeep : failure.cause? ≠ some .nestedTooDeep)
    (hagain : ∀ other : Cursor, other.Resembles later →
      ∃ failure', Parser.program (other.before front) = .error failure' ∧
        failure'.cause? = failure.cause?) : FirstUnviable front later.peek := by
  refine ⟨begins_of_completes hfront hcompletes, ?_, ?_⟩
  · intro depth rest program hderives
    obtain ⟨body, final, htokens, hfinal⟩ := last_of_derives hderives
    obtain ⟨other, hcursor, hother⟩ := exists_resembles hfinal htokens
    obtain ⟨failure', hfailure, hcause⟩ := hagain other hother
    rw [htokens] at hderives
    have hagrees := program_of_derives hfinal hderives
    rw [hcursor, program_eq_error_iff.mpr hfailure] at hagrees
    rcases hagrees with hok | ⟨-, position, herror⟩
    · cases hok
    · cases herror
      exact hdeep hcause.symm
  · intro rest program hprogram
    rw [Program.ofTokens?, Cursor.ofTokens?_append_cons hfront, Option.map_map,
      Option.map_eq_some_iff] at hprogram
    obtain ⟨other, hother, hok⟩ := hprogram
    obtain ⟨failure', hfailure, -⟩ := hagain other
      ⟨Cursor.final_of_ofTokens? hother, Cursor.peek_of_ofTokens? hother⟩
    cases (program_eq_error_iff.mpr hfailure).symm.trans hok

/-- A program that is not read comes to a token that is to blame. -/
theorem exists_firstUnviable [Host] {cursor : Cursor} {failure : ParseFailure}
    (hfinal : cursor.final.kind = .endOfInput)
    (hrest : ∀ token ∈ cursor.rest, token.kind ≠ .endOfInput)
    (hprogram : cursor.program = .error failure)
    (hdeep : failure.cause? ≠ some .nestedTooDeep) :
    ∃ front later closing, cursor = Cursor.before later front ∧
      failure.Blames later closing ∧ FirstUnviable front later.peek ∧
      Completes closing fun back => IsProgram (front ++ back) := by
  rw [program_eq_error_iff] at hprogram
  cases pinpoints_program cursor hfinal with
  | @answers front later value hcursor hagain =>
      have hlater := Cursor.ends_of_eq_before hcursor hfinal
      rw [hcursor, hagain later (Cursor.resembles_self hlater)] at hprogram
      cases hprogram
  | @fails front closing later other hcursor hfailure hblames hcompletes hagain =>
      obtain rfl := Except.error.inj (hfailure.symm.trans hprogram)
      refine ⟨front, later, closing, hcursor, hblames, ?_, hcompletes⟩
      apply firstUnviable_of_fails _ hcompletes hdeep hagain
      intro token htoken
      apply hrest
      rw [hcursor]
      exact List.mem_append_left _ htoken

end Refused

/-- The tokens from a cursor on are the next one and others, which start with
the one after it unless the input ends. -/
theorem Cursor.exists_tokens (later : Cursor)
    (hfinal : later.final.kind = .endOfInput) :
    ∃ back, later.rest ++ [later.final] = later.peek :: back ∧
      (later.peek.kind ≠ .endOfInput → ∃ others, back = later.skip.peek :: others) := by
  obtain ⟨rest, final⟩ := later
  cases rest with
  | nil => exact ⟨[], rfl, fun hkind => absurd hfinal hkind⟩
  | cons token rest =>
      refine ⟨rest ++ [final], rfl, fun _ => ?_⟩
      cases rest with
      | nil => exact ⟨[], rfl⟩
      | cons next rest => exact ⟨rest ++ [final], rfl⟩

/-- A source text that is not read has a token that is to blame. -/
theorem exists_firstUnviable_of_parse [Host] {source : String} {tokens : List Token}
    {failure : ParseFailure} (htokens : tokenise source = .ok tokens)
    (hparse : Program.parse source = .error failure)
    (hdeep : failure.cause? ≠ some .nestedTooDeep) :
    ∃ front later closing back, tokens = front ++ later.peek :: back ∧
      (later.peek.kind ≠ .endOfInput → ∃ others, back = later.skip.peek :: others) ∧
      failure.Blames later closing ∧ FirstUnviable front later.peek ∧
      Parser.Completes closing fun back => Parser.IsProgram (front ++ back) := by
  obtain ⟨found, hfound⟩ := Lexer.Source.exists_holds htokens
  have hall := tokenise_of_holds hfound
  obtain rfl := Except.ok.inj (hall.symm.trans htokens)
  rw [Program.parse_of_tokens rfl hfound.kinds hall] at hparse
  obtain ⟨front, later, closing, hcursor, hblames, hfirst, hcompletes⟩ :=
    exists_firstUnviable rfl hfound.kinds hparse hdeep
  obtain ⟨back, hback, hnext⟩ :=
    later.exists_tokens (congrArg (·.final.kind) hcursor).symm
  refine ⟨front, later, closing, back, ?_, hnext, hblames, hfirst, hcompletes⟩
  rw [← hback, ← List.append_assoc]
  exact congrArg (fun cursor => cursor.rest ++ [cursor.final]) hcursor

theorem Token.Unreadable.overlong {numeral : Token}
    (hunreadable : numeral.Unreadable)
    (hnumeral : IsNumeral numeral.text.toList) :
    (∀ c ∈ numeral.text.toList, c.isDigit = true) ∧
      Text.longestNumeral < numeral.text.toList.length := by
  rcases hunreadable with hnone | ⟨hsigns, hlong⟩
  · obtain ⟨x, hx⟩ := Decimal.exists_entireNumber? hnumeral
    rw [hnone] at hx
    cases hx
  · have hdigits := hnumeral.digits hsigns
    refine ⟨hdigits, hlong (List.all_eq_true.mpr fun c hc => ?_)⟩
    exact Text.isDigit_ascii (hdigits c hc)

theorem isNumeral_of_tokenise {source : String} {tokens : List Token}
    (htokens : tokenise source = .ok tokens) {numeral : Token}
    (hmem : numeral ∈ tokens) (hkind : numeral.kind = .number) :
    IsNumeral numeral.text.toList := by
  obtain ⟨found, hreads⟩ := Lexer.Source.exists_reads htokens
  obtain rfl := Except.ok.inj (hreads.tokens.symm.trans htokens)
  rcases List.mem_append.mp hmem with hfound | hfinal
  · exact hreads.numerals numeral hfound hkind
  · rw [List.mem_singleton.mp hfinal] at hkind
    cases hkind

/-- A source text is read or refused with a complaint, unless it has a line
number that is too long to be converted, where a shorter one would do.  That is
the first token then with which no program goes on. -/
theorem Program.parse_outcomes [Host] (source : String) :
    (∃ program, Program.parse source = .ok program) ∨
    (∃ error, Program.parse source = .error (.refused error)) ∨
    Program.parse source = .error .unreadableNumeral ∧
      ∃ front numeral back, tokenise source = .ok (front ++ numeral :: back) ∧
        FirstUnviable front numeral ∧ numeral.kind = .number ∧
        (∀ c ∈ numeral.text.toList, c.isDigit = true) ∧
        Text.longestNumeral < numeral.text.toList.length ∧
        ∃ shorter rest program, shorter.kind = .number ∧
          Program.Derives (Host.nesting + 12) (front ++ shorter :: rest)
            program := by
  cases hparse : Program.parse source with
  | ok program => exact Or.inl ⟨program, rfl⟩
  | error failure =>
      cases failure with
      | refused error => exact Or.inr (Or.inl ⟨error, rfl⟩)
      | unreadableNumeral =>
          refine Or.inr (Or.inr ⟨rfl, ?_⟩)
          cases htokens : tokenise source with
          | error error =>
              rw [Program.parse, htokens] at hparse
              cases hparse
          | ok tokens =>
              obtain ⟨front, later, closing, back, rfl, -, hblames, hfirst,
                hcompletes⟩ := exists_firstUnviable_of_parse htokens hparse
                  (Option.some_ne_none _).symm
              cases hblames with
              | unreadable hkind hunreadable hplace =>
                  obtain ⟨hdigits, hlong⟩ := hunreadable.overlong
                    (isNumeral_of_tokenise htokens (by simp) hkind)
                  obtain ⟨others, rfl⟩ : ∃ others, closing = .number :: others :=
                    List.head?_eq_some_iff.mp hplace
                  obtain ⟨program, hprogram⟩ := hcompletes.spelled
                  have hderives := hprogram TokenKind.endOfInput.sample rfl
                  rw [List.map_cons, List.append_assoc, List.cons_append] at hderives
                  exact ⟨front, later.peek, back, rfl, hfirst, hkind, hdigits, hlong,
                    TokenKind.number.sample, _, program, rfl, hderives⟩

section Ones

variable (column count : Nat)

/-- A numeral made of ones, at least one. -/
def ones : List Char := '1' :: List.replicate count '1'

/-- The tokens of GOTO with a numeral made of ones, up to the end mark. -/
def onesJump : List Token :=
  [⟨.keyword .gotoWord, "GOTO", ⟨1, column⟩⟩,
    ⟨.number, String.ofList (ones count), ⟨1, column + 5⟩⟩]

theorem isDigit_of_mem_ones {c : Char} (hc : c ∈ ones count) : c.isDigit = true := by
  rcases List.mem_cons.mp hc with rfl | hc
  · rfl
  · rw [List.eq_of_mem_replicate hc]
    rfl

theorem reads_ones {source : Lexer.Source}
    (hsource : source.skipGap = ⟨⟨1, column⟩, "GOTO ".toList ++ ones count⟩) :
    source.Reads (onesJump column count) := by
  have hword : Lexer.next source.skipGap = .ok (some
      ([⟨.keyword .gotoWord, "GOTO", ⟨1, column⟩⟩],
        ⟨⟨1, column + 4⟩, ' ' :: ones count⟩)) := by
    rw [hsource]
    rfl
  have hgap : (Lexer.Source.mk ⟨1, column + 4⟩ (' ' :: ones count)).skipGap =
      ⟨⟨1, column + 5⟩, ones count⟩ := by rfl
  have hscan : Lexer.scan '1' (List.replicate count '1') =
      .ok ⟨.number, String.ofList (ones count), ones count, []⟩ := by
    change Except.ok (Lexer.scanNumber '1' (List.replicate count '1')) = _
    unfold Lexer.scanNumber
    rw [List.takeWhile_replicate, List.dropWhile_replicate]
    rfl
  have hnext := Lexer.next_of_scan
    (show (Lexer.Source.mk ⟨1, column + 5⟩ (ones count)).text = _ from rfl) hscan
  rw [← hgap] at hnext
  exact .more hword (.more hnext (.done rfl))

variable {column count}

theorem lineNumber_ones {position : Position}
    (hlong : Text.longestNumeral ≤ count) :
    Parser.lineNumber ⟨.number, String.ofList (ones count), position⟩ =
      throw .unreadableNumeral := by
  have hdigits : (ones count).all Text.isDigit = true :=
    List.all_eq_true.mpr fun c hc => Text.isDigit_ascii (isDigit_of_mem_ones count hc)
  have hsigns : (ones count).all Text.isDigitSign = true := by
    rw [List.all_eq_true] at hdigits ⊢
    intro c hc
    rw [Text.isDigitSign, hdigits c hc, Bool.true_or]
  have hlength : ¬(ones count).length ≤ Text.longestNumeral := by
    rw [ones, List.length_cons, List.length_replicate]
    omega
  unfold Parser.lineNumber Text.wholeNumber?
  rw [String.toList_ofList]
  dsimp only
  rw [hsigns, hdigits, if_neg hlength]
  rfl

theorem statement_onesJump [Host] (hlong : Text.longestNumeral ≤ count)
    (later : Cursor) :
    Parser.statement Host.nesting (later.before (onesJump column count)) =
      .error .unreadableNumeral := by
  have hjump : Parser.jump (later.before (onesJump column count).tail) =
      .error .unreadableNumeral := by
    change (Parser.lineNumber ⟨.number, String.ofList (ones count), _⟩
      later).bind _ = _
    rw [lineNumber_ones hlong]
    rfl
  have hkind : (later.before (onesJump column count)).peek.kind =
      .keyword .gotoWord := rfl
  obtain ⟨depth, hdepth⟩ := Nat.exists_eq_add_of_le' Host.three_le_nesting
  rw [hdepth, Parser.statement_headed hkind Keyword.noConfusion]
  exact hjump

/-- Neither can a program that begins with such a jump, numbered or not. -/
theorem program_onesJump [Host] (hlong : Text.longestNumeral ≤ count)
    {start later : Cursor} {number? : Option Int} (hfinal : start.final.kind = .endOfInput)
    (hend : start.peek.kind ≠ .endOfInput) (hnewline : start.peek.kind ≠ .newline)
    (hnumber : Parser.numberIfAny start =
      .ok (number?, later.before (onesJump column count))) :
    Parser.program start = .error .unreadableNumeral := by
  have hline : Parser.line start = .error .unreadableNumeral := by
    rw [Parser.line_eq, Parser.bind_apply, Parser.numbered, Parser.bind_apply,
      hnumber]
    change ((Parser.statement Host.nesting
      (later.before (onesJump column count))).bind _).bind _ = _
    rw [statement_onesJump hlong]
    rfl
  rw [Parser.program_apply hfinal, if_neg hend, if_neg hnewline,
    Parser.bind_apply, hline]
  rfl

theorem parse_goto_ones [Host] (hlong : Text.longestNumeral ≤ count) :
    Program.parse (String.ofList ("GOTO ".toList ++ ones count)) =
      .error .unreadableNumeral := by
  have hreads : (Lexer.Source.ofString (String.ofList
      ("GOTO ".toList ++ ones count))).Reads (onesJump 1 count) := by
    rw [Lexer.Source.ofString, String.toList_ofList]
    exact reads_ones 1 count rfl
  rw [Program.parse_of_tokens rfl hreads.kinds hreads.tokens, program_eq_error_iff]
  have hnumber (later : Cursor) :
      Parser.numberIfAny (later.before (onesJump 1 count)) =
        .ok (none, later.before (onesJump 1 count)) := rfl
  exact program_onesJump hlong rfl TokenKind.noConfusion TokenKind.noConfusion
    (hnumber ⟨[], _⟩)

/-- A line number in front of the jump makes no difference. -/
theorem parse_numbered_goto_ones [Host] (hlong : Text.longestNumeral ≤ count) :
    Program.parse (String.ofList ("10 GOTO ".toList ++ ones count)) =
      .error .unreadableNumeral := by
  have hreads : (Lexer.Source.ofString (String.ofList
      ("10 GOTO ".toList ++ ones count))).Reads
        (⟨.number, "10", ⟨1, 1⟩⟩ :: onesJump 4 count) := by
    rw [Lexer.Source.ofString, String.toList_ofList]
    have hnumeral : Lexer.next (Lexer.Source.mk .start
        ("10 GOTO ".toList ++ ones count)).skipGap = .ok (some
          ([⟨.number, "10", ⟨1, 1⟩⟩],
            ⟨⟨1, 3⟩, ' ' :: ("GOTO ".toList ++ ones count)⟩)) := by
      rfl
    exact .more hnumeral (reads_ones 4 count rfl)
  rw [Program.parse_of_tokens rfl hreads.kinds hreads.tokens, program_eq_error_iff]
  have hnumber (later : Cursor) : Parser.numberIfAny
      (later.before (⟨.number, "10", ⟨1, 1⟩⟩ :: onesJump 4 count)) =
        .ok (some 10, later.before (onesJump 4 count)) := by
    rw [Parser.numberIfAny, Parser.bind_apply, Parser.acceptNumeral_read rfl]
    rfl
  exact program_onesJump hlong rfl TokenKind.noConfusion TokenKind.noConfusion
    (hnumber ⟨[], _⟩)

end Ones

/-- A jump to a line number of 4301 digits is neither read nor refused with a
complaint. -/
theorem Program.parse_overlong_jump :
    Program.parse (String.ofList ("GOTO ".toList ++ List.replicate 4301 '1')) =
      .error .unreadableNumeral :=
  parse_goto_ones (Nat.le_refl 4300)

end NumberedBasic
