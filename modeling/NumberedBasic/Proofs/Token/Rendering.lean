import NumberedBasic.Proofs.Token.Rereading

/-!
# Writing tokens out and reading them again

The tokens of a text are written out one after the other, with single spaces
in between.  The text that results need not be the first one, yet it has the
same tokens: signs have one spelling, words are in upper case, and a comment
ends where its line does.
-/

namespace NumberedBasic

/-- What a token stands for, wherever it is. -/
def Token.content (token : Token) : TokenKind × String :=
  (token.kind, token.text)

/-- The tokens one by one as they are written.  A string right after a REM is
its comment. -/
def writings (afterRemark : Bool) : List Token → List String
  | [] => []
  | token :: others =>
      token.written afterRemark ::
        writings (token.kind = .keyword .remWord) others

/-- The tokens up to the end mark, separated by single spaces. -/
def renderTokens (tokens : List Token) : String :=
  " ".intercalate (writings false (tokens.takeWhile (·.kind ≠ .endOfInput)))

namespace Lexer

/-! ## Rendered text -/

/-- The tokens as they are written, a space in front of each. -/
def spaced (afterRemark : Bool) (tokens : List Token) : List Char :=
  (writings afterRemark tokens).flatMap fun text => ' ' :: text.toList

theorem spaced_cons (afterRemark : Bool) (token : Token)
    (others : List Token) :
    spaced afterRemark (token :: others) =
      ' ' :: (token.written afterRemark).toList ++
        spaced (token.kind = .keyword .remWord) others := rfl

theorem apart_spaced (afterRemark : Bool) (tokens : List Token) :
    Apart (spaced afterRemark tokens) := by
  cases tokens with
  | nil => exact nofun
  | cons token others => exact fun c hc => (Option.some.inj hc).symm

theorem toList_intercalate_space (texts : List String) :
    (" ".intercalate texts).toList =
      (texts.flatMap fun text => ' ' :: text.toList).tail := by
  rw [String.toList_intercalate]
  induction texts with
  | nil => rfl
  | cons text texts ih =>
      cases texts with
      | nil => simp
      | cons text' texts =>
          rw [List.map_cons, List.map_cons, List.intercalate_cons_cons,
            ← List.map_cons, ih]
          simp

/-! ## Ends of lines -/

/-- The text is at its end or at the end of a line. -/
def LineEnd (text : List Char) : Prop := ∀ c ∈ text.head?, c = '\n'

theorem lineEnd_dropWhile (text : List Char) :
    LineEnd (text.dropWhile (· ≠ '\n')) := by
  intro c hc
  simpa using Text.head_dropWhile (· ≠ '\n') text c hc

theorem span_lineEnd {line ending : List Char} (hline : ∀ c ∈ line, c ≠ '\n')
    (hending : LineEnd ending) :
    (line ++ ending).takeWhile (· ≠ '\n') = line ∧
      (line ++ ending).dropWhile (· ≠ '\n') = ending := by
  have hpasses : ∀ c ∈ line, decide (c ≠ '\n') = true :=
    fun c hc => decide_eq_true (hline c hc)
  refine Text.span_of_stop hpasses fun c hc => ?_
  rw [hending c hc]
  rfl

/-- Tokens that start with the end of a line, if there are any. -/
def BeginsLine (tokens : List Token) : Prop :=
  ∀ token ∈ tokens.head?, token.kind = .newline

/-- What follows on the end of a line is written on a line of its own. -/
theorem spaced_of_beginsLine {found : List Token} (hfound : BeginsLine found)
    (afterRemark : Bool) :
    LineEnd ((spaced false found).dropWhile isGap) ∧
      ∃ pad, (∀ c ∈ pad, c = ' ') ∧
        spaced afterRemark found =
          pad ++ (spaced false found).dropWhile isGap := by
  cases found with
  | nil => exact ⟨nofun, [], nofun, rfl⟩
  | cons token others =>
      have hkind : token.kind = .newline := hfound token rfl
      have hspaced : ∀ flag, spaced flag (token :: others) =
          ' ' :: '\n' :: spaced false others := by
        intro flag
        rw [spaced_cons, Token.written, hkind]
        simp
      have hdropped : (spaced false (token :: others)).dropWhile isGap =
          '\n' :: spaced false others := by
        rw [hspaced]
        rfl
      rw [hdropped, hspaced]
      refine ⟨fun c hc => (Option.some.inj hc).symm, [' '], ?_, rfl⟩
      exact fun c hc => List.mem_singleton.mp hc

theorem Source.Reads.beginsLine {source : Source} {found : List Token}
    (hreads : source.Reads found) (hend : LineEnd source.text) :
    BeginsLine found := by
  cases hreads with
  | done => exact nofun
  | @more _ rest read found hnext hrest =>
      obtain ⟨position, text⟩ := source
      cases text with
      | nil => cases hnext
      | cons c after =>
          obtain rfl : c = '\n' := hend c rfl
          cases hnext
          intro token htoken
          rw [← Option.some.inj htoken]

/-! ## Comments -/

theorem trimRight_append_pad {pad : List Char} (hpad : ∀ c ∈ pad, c = ' ')
    (line : List Char) : Text.trimRight (line ++ pad) = Text.trimRight line := by
  have hblank : ∀ c ∈ pad.reverse, Text.isBlank c = true := by
    intro c hc
    rw [hpad c (List.mem_reverse.mp hc)]
    decide
  rw [Text.trimRight, List.reverse_append,
    List.dropWhile_append_of_pos hblank, Text.trimRight]

/-- A line that a comment can consist of. -/
structure IsRemark (line : List Char) : Prop where
  inLine : ∀ c ∈ line, c ≠ '\n'
  trimmed : Text.trimRight line = line
  begins : ∀ c ∈ line.head?, isGap c = false

/-- The token of a comment; there is none if nothing is left of the line. -/
def remarkTokens (line : List Char) (position : Position) : List Token :=
  if line.isEmpty then [] else [⟨.string, String.ofList line, position⟩]

theorem content_remarkTokens (line : List Char) (position position' : Position) :
    (remarkTokens line position).map Token.content =
      (remarkTokens line position').map Token.content := by
  unfold remarkTokens
  split <;> rfl

theorem comment_eq (source : Source) :
    comment source =
      (remarkTokens (Text.trimRight (source.skipGap.text.takeWhile (· ≠ '\n')))
          source.skipGap.position,
        ⟨source.skipGap.position.after
            (source.skipGap.text.takeWhile (· ≠ '\n')),
          source.skipGap.text.dropWhile (· ≠ '\n')⟩) := by
  unfold comment remarkTokens
  dsimp only
  split <;> rfl

/-- What is left of a line behind its REM can be a comment. -/
theorem isRemark_trimRight (source : Source) :
    IsRemark (Text.trimRight (source.skipGap.text.takeWhile (· ≠ '\n'))) := by
  have hbegins : Text.trimRight (source.skipGap.text.takeWhile (· ≠ '\n')) <+:
      source.skipGap.text.takeWhile (· ≠ '\n') :=
    List.rdropWhile_prefix Text.isBlank _
  constructor
  case inLine =>
    intro c hc
    exact of_decide_eq_true
      (List.all_eq_true.mp List.all_takeWhile c (hbegins.subset hc))
  case trimmed => exact List.rdropWhile_idempotent Text.isBlank _
  case begins =>
    intro c hc
    obtain ⟨after, hafter⟩ := hbegins.trans (List.takeWhile_prefix _)
    have hfirst : (source.text.dropWhile isGap).head? = some c := by
      change source.skipGap.text.head? = some c
      rw [← hafter, List.head?_append, Option.mem_def.mp hc]
      rfl
    have hhead := List.head?_dropWhile_not isGap source.text
    rw [hfirst] at hhead
    exact hhead

theorem exists_comment_eq (source : Source) :
    ∃ line rest, IsRemark line ∧ LineEnd rest.text ∧
      comment source = (remarkTokens line source.skipGap.position, rest) :=
  ⟨_, _, isRemark_trimRight source, lineEnd_dropWhile _, comment_eq source⟩

theorem comment_of_isRemark {source : Source} {line pad ending : List Char}
    (hremark : IsRemark line) (hpad : ∀ c ∈ pad, c = ' ')
    (hending : LineEnd ending)
    (htext : source.skipGap.text = line ++ pad ++ ending) :
    ∃ position, comment source =
      (remarkTokens line source.skipGap.position, ⟨position, ending⟩) := by
  have hline : ∀ c ∈ line ++ pad, c ≠ '\n' := by
    intro c hc
    rcases List.mem_append.mp hc with hc | hc
    · exact hremark.inLine c hc
    · rw [hpad c hc]
      decide
  obtain ⟨htaken, hdropped⟩ := span_lineEnd hline hending
  rw [comment_eq, htext, htaken, hdropped, trimRight_append_pad hpad,
    hremark.trimmed]
  exact ⟨_, rfl⟩

/-- Behind a REM its comment is written as it is, and the line may have to be
trimmed again. -/
theorem dropWhile_spaced_remarkTokens {line : List Char}
    (hremark : IsRemark line) (position : Position) {found : List Token}
    (hfound : BeginsLine found) :
    ∃ pad, (∀ c ∈ pad, c = ' ') ∧
      (spaced true (remarkTokens line position ++ found)).dropWhile isGap =
        line ++ pad ++ (spaced false found).dropWhile isGap := by
  cases line with
  | nil =>
      obtain ⟨-, pad, hpad, hspaced⟩ := spaced_of_beginsLine hfound true
      have hgap : ∀ c ∈ pad, isGap c = true := by
        intro c hc
        rw [hpad c hc]
        rfl
      refine ⟨[], nofun, ?_⟩
      change (spaced true found).dropWhile isGap = _
      rw [hspaced, List.dropWhile_append_of_pos hgap]
      exact List.dropWhile_idempotent isGap _
  | cons c line =>
      obtain ⟨-, pad, hpad, hspaced⟩ := spaced_of_beginsLine hfound false
      have hgap : isGap c = false := hremark.begins c rfl
      refine ⟨pad, hpad, ?_⟩
      change (' ' :: (String.ofList (c :: line)).toList ++
        spaced false found).dropWhile isGap = _
      rw [String.toList_ofList, List.cons_append, List.cons_append,
        List.dropWhile_cons_of_pos (by rfl),
        List.dropWhile_cons_of_neg (by simp [hgap]), List.append_assoc,
        ← hspaced]
      rfl

/-! ## Reading what was written -/

/-- A token that was read is read again behind a space. -/
theorem scan_spaced {first : Char} {after later : List Char} {lexeme : Lexeme}
    (hscan : scan first after = .ok lexeme) (hlater : Apart later) :
    ∃ first' after' written,
      (' ' :: lexeme.spelled ++ later).dropWhile isGap = first' :: after' ∧
        scan first' after' = .ok ⟨lexeme.kind, lexeme.text, written, later⟩ := by
  obtain ⟨first', after', hspelled, hreads⟩ := rereads_scan hscan
  obtain ⟨written, hagain⟩ := hreads later hlater
  refine ⟨first', after' ++ later, written, ?_, hagain⟩
  rw [hspelled, List.cons_append, List.cons_append,
    List.dropWhile_cons_of_pos (by rfl),
    List.dropWhile_cons_of_neg (by simp [not_isGap_of_scan hagain])]

section NextSpaced

variable {first : Char} {after : List Char} {lexeme : Lexeme}
  (hscan : scan first after = .ok lexeme) {again : Source} {found : List Token}

include hscan

theorem next_spaced_remark (hkind : lexeme.kind = .keyword .remWord)
    {line : List Char} (hremark : IsRemark line) (hfound : BeginsLine found)
    {position position' : Position}
    (htext : again.text = (spaced false (⟨lexeme.kind, lexeme.text, position⟩ ::
      (remarkTokens line position' ++ found))).dropWhile isGap) :
    ∃ place rest, next again = .ok (some
        (⟨lexeme.kind, lexeme.text, again.position⟩ :: remarkTokens line place,
          rest)) ∧
      rest.text = (spaced false found).dropWhile isGap := by
  obtain ⟨first', after', written, hdrop, hagain⟩ :=
    scan_spaced hscan (apart_spaced true (remarkTokens line position' ++ found))
  have hwritten : again.text = first' :: after' := by
    rw [htext, spaced_cons, decide_eq_true hkind, ← hdrop]
    rfl
  obtain ⟨pad, hpad, hline⟩ :=
    dropWhile_spaced_remarkTokens hremark position' hfound
  let behind : Source := ⟨again.position.after written,
    spaced true (remarkTokens line position' ++ found)⟩
  obtain ⟨position'', hcomment⟩ := comment_of_isRemark hremark hpad
    (spaced_of_beginsLine hfound true).1 (show behind.skipGap.text = _ from hline)
  rw [next_of_scan hwritten hagain, Lexeme.read, if_pos hkind, hcomment]
  exact ⟨_, _, rfl, rfl⟩

theorem next_spaced_single (hkind : lexeme.kind ≠ .keyword .remWord)
    {position : Position}
    (htext : again.text = (spaced false
      (⟨lexeme.kind, lexeme.text, position⟩ :: found)).dropWhile isGap) :
    ∃ rest, next again =
        .ok (some ([⟨lexeme.kind, lexeme.text, again.position⟩], rest)) ∧
      rest.text = spaced false found := by
  obtain ⟨first', after', written, hdrop, hagain⟩ :=
    scan_spaced hscan (apart_spaced false found)
  have hwritten : again.text = first' :: after' := by
    rw [htext, spaced_cons, decide_eq_false hkind, ← hdrop]
    rfl
  rw [next_of_scan hwritten hagain, Lexeme.read, if_neg hkind]
  exact ⟨_, rfl, rfl⟩

end NextSpaced

/-- One token, or a REM with its comment, is read again from what is written
for it, and what is left is written for the tokens that follow. -/
theorem next_spaced {source rest again : Source} {read found : List Token}
    (hnext : next source = .ok (some (read, rest))) (hrest : rest.Reads found)
    (htext : again.text = (spaced false (read ++ found)).dropWhile isGap) :
    ∃ read' rest', next again = .ok (some (read', rest')) ∧
      read'.map Token.content = read.map Token.content ∧
      rest'.skipGap.text = (spaced false found).dropWhile isGap := by
  obtain ⟨first, after, lexeme, hsource, hscan, hread⟩ :=
    exists_scan_of_next hnext
  rw [Lexeme.read] at hread
  split at hread
  next hkind =>
    obtain ⟨line, ending, hremark, hend, hcomment⟩ := exists_comment_eq
      ⟨source.position.after lexeme.written, lexeme.rest⟩
    rw [hcomment] at hread
    cases hread
    obtain ⟨place, rest', hagain, hleft⟩ := next_spaced_remark hscan hkind
      hremark (hrest.beginsLine hend) htext
    refine ⟨_, rest', hagain, ?_, ?_⟩
    · exact congrArg (_ :: ·) (content_remarkTokens line _ _)
    · rw [Source.skipGap, hleft]
      exact List.dropWhile_idempotent isGap _
  next hkind =>
    cases hread
    obtain ⟨rest', hagain, hleft⟩ := next_spaced_single hscan hkind htext
    exact ⟨_, rest', hagain, rfl, congrArg (List.dropWhile isGap) hleft⟩

theorem Source.Reads.of_spaced {source : Source} {found : List Token}
    (hreads : source.Reads found) {again : Source}
    (htext : again.skipGap.text = (spaced false found).dropWhile isGap) :
    ∃ found', again.Reads found' ∧
      found'.map Token.content = found.map Token.content := by
  induction hreads generalizing again with
  | done =>
      refine ⟨[], .done ?_, rfl⟩
      rw [next, htext]
      rfl
  | more hnext hrest ih =>
      obtain ⟨read', rest', hnext', hread, hleft⟩ :=
        next_spaced hnext hrest htext
      obtain ⟨found', hfound, hcontent⟩ := ih hleft
      refine ⟨read' ++ found', .more hnext' hfound, ?_⟩
      rw [List.map_append, List.map_append, hread, hcontent]

end Lexer

theorem renderTokens_append_final {found : List Token}
    (hkinds : ∀ token ∈ found, token.kind ≠ .endOfInput) (final : Position) :
    renderTokens (found ++ [⟨.endOfInput, "", final⟩]) =
      " ".intercalate (writings false found) := by
  have hbefore : ∀ token ∈ found, decide (token.kind ≠ .endOfInput) = true :=
    fun token htoken => decide_eq_true (hkinds token htoken)
  rw [renderTokens, List.takeWhile_append_of_pos hbefore]
  simp

/-- What a text is rendered as is accepted and has the same tokens, maybe in
other places. -/
theorem tokenise_renderTokens {text : String} {tokens : List Token}
    (htokens : tokenise text = .ok tokens) :
    ∃ again, tokenise (renderTokens tokens) = .ok again ∧
      again.map Token.content = tokens.map Token.content := by
  obtain ⟨found, hreads⟩ := Lexer.Source.exists_reads htokens
  obtain rfl : found ++ [⟨.endOfInput, "", _⟩] = tokens :=
    Except.ok.inj (hreads.tokens.symm.trans htokens)
  rw [renderTokens_append_final hreads.kinds]
  have hrendered : (Lexer.Source.ofString
      (" ".intercalate (writings false found))).skipGap.text =
      (Lexer.spaced false found).dropWhile Lexer.isGap := by
    rw [Lexer.Source.skipGap, Lexer.Source.ofString,
      Lexer.toList_intercalate_space]
    cases found <;> rfl
  obtain ⟨found', hreads', hcontent⟩ := hreads.of_spaced hrendered
  refine ⟨_, hreads'.tokens, ?_⟩
  rw [List.map_append, List.map_append, hcontent]
  rfl

/-- Tokens that touch, a string across two lines, a comment with a quote in it
and a REM without a comment. -/
theorem tokenise_renderTokens_of_touching :
    ∃ tokens again,
      tokenise "a1$!=\"x\n y\"**5rem it\"s \r\nREM" = .ok tokens ∧
      renderTokens tokens = "A1$ <> \"x\n y\" ^ 5 REM it\"s \n REM" ∧
      tokenise (renderTokens tokens) = .ok again ∧
        again.map Token.content = tokens.map Token.content := by
  have htokens : tokenise "a1$!=\"x\n y\"**5rem it\"s \r\nREM" =
      .ok [⟨.identifier, "A1$", ⟨1, 1⟩⟩, ⟨.sign .notEqual, "<>", ⟨1, 4⟩⟩,
        ⟨.string, "x\n y", ⟨1, 6⟩⟩, ⟨.sign .caret, "^", ⟨2, 4⟩⟩,
        ⟨.number, "5", ⟨2, 6⟩⟩, ⟨.keyword .remWord, "REM", ⟨2, 7⟩⟩,
        ⟨.string, "it\"s", ⟨2, 11⟩⟩, ⟨.newline, "\n", ⟨2, 17⟩⟩,
        ⟨.keyword .remWord, "REM", ⟨3, 1⟩⟩, ⟨.endOfInput, "", ⟨3, 4⟩⟩] := by
    rfl
  obtain ⟨again, hagain, hcontent⟩ := tokenise_renderTokens htokens
  exact ⟨_, again, htokens, rfl, hagain, hcontent⟩

end NumberedBasic
