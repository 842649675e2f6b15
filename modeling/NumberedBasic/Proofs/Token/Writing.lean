import NumberedBasic.Proofs.Token.Cutting
import NumberedBasic.Proofs.Token.Numeral

/-!
# How tokens are written

Each kind of token has its ways of being written.  A token is read from what it
is written with, and where a token is written some token is read: a text is
refused only where none starts.
-/

namespace NumberedBasic

/-- Every sign can be written in its canonical spelling, and two of them in
another one. -/
inductive Sign.Written : Sign → List Char → Prop
  | canonical (sign : Sign) : Written sign sign.spelling.toList
  | stars : Written .caret ['*', '*']
  | exclaimed : Written .notEqual ['!', '=']

/-- A word in any letter case, maybe with a dollar sign at its end. -/
structure IsWord (written : List Char) : Prop where
  spelled : ∃ first names mark, written = first :: names ++ mark ∧
    Lexer.isNameStart first = true ∧
    (∀ c ∈ names, Lexer.isNameChar c = true) ∧ (mark = [] ∨ mark = ['$'])

/-- The source text of a token of some kind and text that is no comment. -/
inductive TokenKind.Written : TokenKind → String → List Char → Prop
  | newline : Written .newline "\n" ['\n']
  | endOfInput : Written .endOfInput "" []
  | number {written : List Char} (hnumeral : IsNumeral written) :
      Written .number (String.ofList written) written
  | string {content : List Char} (hcontent : '"' ∉ content) :
      Written .string (String.ofList content) ('"' :: content ++ ['"'])
  | word {written : List Char} (hword : IsWord written) :
      Written (Lexer.wordKind (Lexer.upperWord written))
        (Lexer.upperWord written) written
  | sign {sign : Sign} {written : List Char} (hsign : sign.Written written) :
      Written (.sign sign) sign.spelling written

namespace Lexer

theorem isNumeral_written (first : Char) (hfirst : first.isDigit = true)
    (after : List Char) :
    IsNumeral (scanNumber first after).written ∧
      (scanNumber first after).text =
        String.ofList (scanNumber first after).written := by
  have hsame : (scanNumber first after).text =
      String.ofList (scanNumber first after).written := by
    by_cases hfraction : HasFraction after
    · obtain ⟨digit, more, hleft, hdigit⟩ := hfraction
      rw [scanNumber_of_fraction first hleft hdigit]
    · rw [scanNumber_of_not_fraction first hfraction]
  have hnumeral := isNumeral_scanNumber hfirst after
  rw [hsame, String.toList_ofList] at hnumeral
  exact ⟨hnumeral, hsame⟩

theorem isWord_written {first : Char} (hfirst : isNameStart first = true)
    (after : List Char) :
    IsWord (scanWord first after).written ∧
      (scanWord first after).text = upperWord (scanWord first after).written ∧
      (scanWord first after).kind =
        wordKind (upperWord (scanWord first after).written) := by
  have hnames : ∀ c ∈ after.takeWhile isNameChar, isNameChar c = true :=
    List.all_eq_true.mp List.all_takeWhile
  by_cases hdollar : ∃ rest, after.dropWhile isNameChar = '$' :: rest
  · obtain ⟨rest, hdollar⟩ := hdollar
    rw [scanWord_of_dollar first hdollar]
    exact ⟨⟨first, _, ['$'], rfl, hfirst, hnames, Or.inr rfl⟩, rfl, rfl⟩
  · rw [not_exists] at hdollar
    rw [scanWord_of_not_dollar first hdollar]
    exact ⟨⟨first, _, [], (List.append_nil _).symm, hfirst, hnames, Or.inl rfl⟩,
      rfl, rfl⟩

theorem written_of_doubleSign? {first second : Char} {sign : Sign}
    (hsign : doubleSign? first second = some sign) :
    sign.Written [first, second] := by
  unfold doubleSign? at hsign
  split at hsign <;> cases hsign
  · exact .stars
  · exact .canonical .lessEqual
  · exact .canonical .greaterEqual
  · exact .canonical .notEqual
  · exact .exclaimed

theorem written_of_singleSign? {first : Char} {sign : Sign}
    (hsign : singleSign? first = some sign) : sign.Written [first] := by
  unfold singleSign? at hsign
  split at hsign <;> cases hsign <;> exact .canonical _

theorem written_of_scanSign {first : Char} {after : List Char} {lexeme : Lexeme}
    (hscan : scanSign first after = .ok lexeme) :
    lexeme.kind.Written lexeme.text lexeme.written := by
  have hsingle {after : List Char} (hscan : scanSingle first after = .ok lexeme) :
      lexeme.kind.Written lexeme.text lexeme.written := by
    rw [scanSingle] at hscan
    split at hscan
    next sign hsign =>
      cases hscan
      exact .sign (written_of_singleSign? hsign)
    next => cases hscan
  cases after with
  | nil => exact hsingle hscan
  | cons second rest =>
      unfold scanSign at hscan
      dsimp only at hscan
      split at hscan
      next sign hsign =>
        cases hscan
        exact .sign (written_of_doubleSign? hsign)
      next => exact hsingle hscan

theorem written_of_scanString {after : List Char} {lexeme : Lexeme}
    (hscan : scanString after = .ok lexeme) :
    lexeme.kind.Written lexeme.text lexeme.written := by
  unfold scanString at hscan
  dsimp only at hscan
  split at hscan
  next => cases hscan
  next quote rest hdrop =>
    cases hscan
    have hquote := Text.head_dropWhile (· ≠ '"') after quote (by rw [hdrop]; rfl)
    obtain rfl : quote = '"' := by simpa using hquote
    refine .string fun hmem => ?_
    have hpasses := List.all_eq_true.mp List.all_takeWhile _ hmem
    simp at hpasses

/-- What a token is read from is how it is written. -/
theorem written_of_scan {first : Char} {after : List Char} {lexeme : Lexeme}
    (hscan : scan first after = .ok lexeme) :
    lexeme.kind.Written lexeme.text lexeme.written := by
  rw [scan] at hscan
  split at hscan
  next =>
    cases hscan
    exact .newline
  split at hscan
  next hdigit =>
    cases hscan
    obtain ⟨hnumeral, htext⟩ := isNumeral_written first hdigit after
    rw [kind_scanNumber, htext]
    exact .number hnumeral
  split at hscan
  next => exact written_of_scanString hscan
  split at hscan
  next hname =>
    cases hscan
    obtain ⟨hword, htext, hkind⟩ := isWord_written hname after
    rw [hkind, htext]
    exact .word hword
  next => exact written_of_scanSign hscan

/-! ## Where no token starts -/

/-- No token is written at the front of the text. -/
def NoToken (text : List Char) : Prop :=
  ∀ kind word written, TokenKind.Written kind word written → written ≠ [] →
    ¬written <+: text

theorem exists_scan_of_scanSign {first : Char} {after : List Char}
    (hquote : first ≠ '"') (hscan : ∃ lexeme, scanSign first after = .ok lexeme) :
    ∃ lexeme, scan first after = .ok lexeme := by
  rw [scan, if_neg (c := first = '"') hquote]
  split
  · exact ⟨_, rfl⟩
  split
  · exact ⟨_, rfl⟩
  split
  · exact ⟨_, rfl⟩
  · exact hscan

theorem exists_scan_of_sign {sign : Sign} {written : List Char}
    (hsign : sign.Written written) (rest : List Char) :
    ∃ first after lexeme, written ++ rest = first :: after ∧
      scan first after = .ok lexeme := by
  have hsingle {first : Char} (hquote : first ≠ '"')
      (hfirst : singleSign? first = some sign) :
      ∃ lexeme, scan first rest = .ok lexeme := by
    have hscan : ∃ lexeme, scanSingle first rest = .ok lexeme := by
      rw [scanSingle, hfirst]
      exact ⟨_, rfl⟩
    apply exists_scan_of_scanSign hquote
    cases rest with
    | nil => exact hscan
    | cons second rest =>
        unfold scanSign
        dsimp only
        split
        · exact ⟨_, rfl⟩
        · exact hscan
  have hdouble {first second : Char} (hquote : first ≠ '"')
      (hfirst : doubleSign? first second = some sign) :
      ∃ lexeme, scan first (second :: rest) = .ok lexeme := by
    apply exists_scan_of_scanSign hquote
    unfold scanSign
    dsimp only
    rw [hfirst]
    exact ⟨_, rfl⟩
  cases hsign with
  | stars => exact ⟨_, _, _, rfl, (hdouble (by decide) rfl).choose_spec⟩
  | exclaimed => exact ⟨_, _, _, rfl, (hdouble (by decide) rfl).choose_spec⟩
  | canonical =>
      cases sign
      case notEqual =>
        exact ⟨_, _, _, rfl, (hdouble (by decide) rfl).choose_spec⟩
      case lessEqual =>
        exact ⟨_, _, _, rfl, (hdouble (by decide) rfl).choose_spec⟩
      case greaterEqual =>
        exact ⟨_, _, _, rfl, (hdouble (by decide) rfl).choose_spec⟩
      all_goals exact ⟨_, _, _, rfl, (hsingle (by decide) rfl).choose_spec⟩

/-- Where a token is written some token is read. -/
theorem exists_scan_of_written {kind : TokenKind} {word : String}
    {written : List Char} (hwritten : kind.Written word written)
    (hnonempty : written ≠ []) (rest : List Char) :
    ∃ first after lexeme, written ++ rest = first :: after ∧
      scan first after = .ok lexeme := by
  cases hwritten with
  | newline => exact ⟨_, _, _, rfl, rfl⟩
  | endOfInput => exact absurd rfl hnonempty
  | number hnumeral =>
      obtain ⟨first, after, rfl, hdigit⟩ := hnumeral.head
      exact ⟨first, _, _, rfl, scan_of_isDigit hdigit _⟩
  | @string content hcontent =>
      have hpasses : ∀ c ∈ content, decide (c ≠ '"') = true := by
        intro c hc
        refine decide_eq_true ?_
        rintro rfl
        exact hcontent hc
      have hquote : ∀ c ∈ ('"' :: rest).head?, decide (c ≠ '"') = false := by
        rintro c ⟨⟩
        rfl
      obtain ⟨-, hdropped⟩ := Text.span_of_stop hpasses hquote
      have hscan : ∃ lexeme, scanString (content ++ '"' :: rest) = .ok lexeme := by
        unfold scanString
        rw [hdropped]
        exact ⟨_, rfl⟩
      obtain ⟨lexeme, hscan⟩ := hscan
      exact ⟨'"', content ++ '"' :: rest, lexeme, by simp, hscan⟩
  | word hword =>
      obtain ⟨first, names, mark, rfl, hfirst, -, -⟩ := hword.spelled
      exact ⟨first, _, _, rfl, scan_of_isNameStart hfirst _⟩
  | sign hsign => exact exists_scan_of_sign hsign rest

theorem noToken_of_scan {first : Char} {after : List Char} {cause : SyntaxCause}
    (hscan : scan first after = .error cause) : NoToken (first :: after) := by
  rintro kind word written hwritten hnonempty ⟨rest, htext⟩
  obtain ⟨first', after', lexeme, htext', hscan'⟩ :=
    exists_scan_of_written hwritten hnonempty rest
  obtain ⟨rfl, rfl⟩ := List.cons.inj (htext'.symm.trans htext)
  rw [hscan] at hscan'
  cases hscan'

/-- Why no token can be read at the front of a text. -/
theorem cause_of_scan {first : Char} {after : List Char} {cause : SyntaxCause}
    (hscan : scan first after = .error cause) :
    cause = .unterminatedString ∧ first = '"' ∧ '"' ∉ after ∨
      cause = .unexpectedCharacter first ∧ first ≠ '"' := by
  rw [scan] at hscan
  split at hscan
  next => cases hscan
  split at hscan
  next => cases hscan
  split at hscan
  next hquote =>
    unfold scanString at hscan
    dsimp only at hscan
    split at hscan
    next hdrop =>
      cases hscan
      refine Or.inl ⟨rfl, hquote, fun hmem => ?_⟩
      have hpasses := List.dropWhile_eq_nil_iff.mp hdrop _ hmem
      simp at hpasses
    next => cases hscan
  next hquote =>
    split at hscan
    next => cases hscan
    next =>
      have hsingle {after : List Char} (hscan : scanSingle first after = .error cause) :
          cause = .unexpectedCharacter first := by
        rw [scanSingle] at hscan
        split at hscan <;> cases hscan
        rfl
      refine Or.inr ⟨?_, hquote⟩
      cases after with
      | nil => exact hsingle hscan
      | cons second rest =>
          unfold scanSign at hscan
          dsimp only at hscan
          split at hscan
          · cases hscan
          · exact hsingle hscan

end Lexer

end NumberedBasic
