import Mathlib
import NumberedBasic.Proofs.Text.Trim
import NumberedBasic.Proofs.Token.Lexing

/-!
# Reading a token from its own text

A token can be written out by its text, a string in quotes.  What is written
is read as the same token again if a space or nothing at all follows: no
digit, letter or sign can join it there.
-/

namespace NumberedBasic

/-- How a token is written.  The comment of a REM stands as it is. -/
def Token.written (isComment : Bool) (token : Token) : String :=
  match token.kind with
  | .string => if isComment then token.text else "\"" ++ token.text ++ "\""
  | .newline => "\n"
  | _ => token.text

namespace Lexer

/-- Nothing follows, or a space does. -/
def Apart (later : List Char) : Prop := ∀ c ∈ later.head?, c = ' '

/-- A search through characters that all pass ends in front of what stands
apart from them. -/
theorem span_apart {passes : Char → Bool} (hspace : passes ' ' = false)
    {front later : List Char} (hfront : ∀ c ∈ front, passes c = true)
    (hlater : Apart later) :
    (front ++ later).takeWhile passes = front ∧
      (front ++ later).dropWhile passes = later := by
  refine Text.span_of_stop hfront fun c hc => ?_
  rw [hlater c hc]
  exact hspace

/-- What is written for a lexeme that is no comment. -/
def Lexeme.spelled (lexeme : Lexeme) : List Char :=
  (Token.written false ⟨lexeme.kind, lexeme.text, .start⟩).toList

/-- What is written for the lexeme is read as it again. -/
def Lexeme.Rereads (lexeme : Lexeme) : Prop :=
  ∃ first after, lexeme.spelled = first :: after ∧
    ∀ later, Apart later → ∃ written,
      scan first (after ++ later) =
        .ok ⟨lexeme.kind, lexeme.text, written, later⟩

/-! ## Numerals -/

theorem scan_of_isDigit {first : Char} (hfirst : first.isDigit = true)
    (after : List Char) : scan first after = .ok (scanNumber first after) := by
  have hnewline : first ≠ '\n' := by
    rintro rfl
    cases hfirst
  rw [scan, if_neg hnewline, if_pos hfirst]

section Numerals

variable {digits later : List Char}

theorem scanNumber_apart (first : Char)
    (hdigits : ∀ c ∈ digits, c.isDigit = true) (hlater : Apart later) :
    scanNumber first (digits ++ later) =
      ⟨.number, String.ofList (first :: digits), first :: digits, later⟩ := by
  obtain ⟨htaken, hdropped⟩ := span_apart rfl hdigits hlater
  unfold scanNumber
  rw [htaken, hdropped]
  cases later with
  | nil => rfl
  | cons c later =>
      obtain rfl : c = ' ' := hlater c rfl
      rfl

theorem scanNumber_fraction_apart (first : Char) {digit : Char}
    {decimals : List Char} (hdigits : ∀ c ∈ digits, c.isDigit = true)
    (hdigit : digit.isDigit = true)
    (hdecimals : ∀ c ∈ decimals, c.isDigit = true) (hlater : Apart later) :
    scanNumber first (digits ++ '.' :: digit :: decimals ++ later) =
      ⟨.number, String.ofList (first :: digits ++ '.' :: digit :: decimals),
        first :: digits ++ '.' :: digit :: decimals, later⟩ := by
  obtain ⟨htaken, hdropped⟩ := span_apart rfl hdecimals hlater
  have hpoint : Char.isDigit '.' = false := rfl
  unfold scanNumber
  rw [List.append_assoc, List.takeWhile_append_of_pos hdigits,
    List.dropWhile_append_of_pos hdigits]
  simp [hpoint, hdigit, htaken, hdropped]

theorem rereads_whole {first : Char} {rest : List Char}
    (hfirst : first.isDigit = true) (hdigits : ∀ c ∈ digits, c.isDigit = true) :
    Lexeme.Rereads ⟨.number, String.ofList (first :: digits), first :: digits,
      rest⟩ :=
  ⟨first, digits, String.toList_ofList, fun _ hlater =>
    ⟨_, (scan_of_isDigit hfirst _).trans
      (congrArg Except.ok (scanNumber_apart first hdigits hlater))⟩⟩

theorem rereads_scanNumber {first : Char} (hfirst : first.isDigit = true)
    (after : List Char) : (scanNumber first after).Rereads := by
  have hdigits : ∀ c ∈ after.takeWhile Char.isDigit, c.isDigit = true :=
    List.all_eq_true.mp List.all_takeWhile
  unfold scanNumber
  dsimp only
  split
  next digit more _ =>
    split
    next hdigit =>
      have hdecimals : ∀ c ∈ more.takeWhile Char.isDigit, c.isDigit = true :=
        List.all_eq_true.mp List.all_takeWhile
      exact ⟨first, _, String.toList_ofList, fun later hlater =>
        ⟨_, (scan_of_isDigit hfirst _).trans (congrArg Except.ok
          (scanNumber_fraction_apart first hdigits hdigit hdecimals hlater))⟩⟩
    next => exact rereads_whole hfirst hdigits
  next => exact rereads_whole hfirst hdigits

end Numerals

/-! ## Strings -/

theorem rereads_scanString {after : List Char} {lexeme : Lexeme}
    (hscan : scanString after = .ok lexeme) : lexeme.Rereads := by
  have hcontent : ∀ c ∈ after.takeWhile (· ≠ '"'), decide (c ≠ '"') = true :=
    List.all_eq_true.mp List.all_takeWhile
  unfold scanString at hscan
  dsimp only at hscan
  split at hscan
  next => cases hscan
  next quote rest _ =>
    cases hscan
    refine ⟨'"', after.takeWhile (· ≠ '"') ++ ['"'], ?_, ?_⟩
    · simp [Lexeme.spelled, Token.written]
    · intro later _
      refine ⟨'"' :: after.takeWhile (· ≠ '"') ++ ['"'], ?_⟩
      change scanString _ = _
      unfold scanString
      rw [List.append_assoc, List.takeWhile_append_of_pos hcontent,
        List.dropWhile_append_of_pos hcontent]
      simp

/-! ## Words -/

theorem isNameChar_toUpper {c : Char} (hname : isNameChar c = true) :
    isNameChar c.toUpper = true := by
  grind [isNameChar, Char.toUpper, Char.isAlphanum, Char.isAlpha, Char.isDigit,
    Char.isUpper, Char.isLower]

theorem isNameStart_toUpper {c : Char} (hname : isNameStart c = true) :
    isNameStart c.toUpper = true := by
  grind [isNameStart, Char.toUpper, Char.isAlpha, Char.isUpper, Char.isLower]

theorem scan_of_isNameStart {first : Char} (hfirst : isNameStart first = true)
    (after : List Char) : scan first after = .ok (scanWord first after) := by
  have hnewline : first ≠ '\n' := by
    rintro rfl
    cases hfirst
  have hquote : first ≠ '"' := by
    rintro rfl
    cases hfirst
  have hdigit : ¬first.isDigit = true := by
    rcases Bool.or_eq_true_iff.mp hfirst with halpha | hunderscore
    · grind [Char.isAlpha, Char.isDigit, Char.isUpper, Char.isLower]
    · rw [of_decide_eq_true hunderscore]
      decide
  rw [scan, if_neg hnewline, if_neg hdigit, if_neg hquote, if_pos hfirst]

/-- A word in upper case. -/
def upperWord (written : List Char) : String :=
  String.ofList (written.map Char.toUpper)

theorem upperWord_map_toUpper (written : List Char) :
    upperWord (written.map Char.toUpper) = upperWord written := by
  simp [upperWord, Function.comp_def, Char.toUpper_toUpper_eq_toUpper]

section Words

variable {names later : List Char} (hnames : ∀ c ∈ names, isNameChar c = true)

include hnames

theorem scanWord_apart (first : Char) (hlater : Apart later) :
    scanWord first (names ++ later) =
      ⟨wordKind (upperWord (first :: names)), upperWord (first :: names),
        first :: names, later⟩ := by
  obtain ⟨htaken, hdropped⟩ := span_apart rfl hnames hlater
  unfold scanWord
  rw [htaken, hdropped]
  cases later with
  | nil => rfl
  | cons c later =>
      obtain rfl : c = ' ' := hlater c rfl
      rfl

theorem scanWord_dollar_apart (first : Char) :
    scanWord first (names ++ '$' :: later) =
      ⟨wordKind (upperWord (first :: names ++ ['$'])),
        upperWord (first :: names ++ ['$']), first :: names ++ ['$'],
        later⟩ := by
  have hdollar : isNameChar '$' = false := rfl
  unfold scanWord
  rw [List.takeWhile_append_of_pos hnames, List.dropWhile_append_of_pos hnames]
  simp [hdollar, upperWord]

end Words

theorem spelled_of_word (word : String) (written rest : List Char) :
    Lexeme.spelled ⟨wordKind word, word, written, rest⟩ = word.toList := by
  rw [Lexeme.spelled, Token.written]
  dsimp only
  unfold wordKind
  cases Keyword.ofSpelling? word <;> rfl

theorem rereads_scanWord {first : Char} (hfirst : isNameStart first = true)
    (after : List Char) : (scanWord first after).Rereads := by
  have hnames : ∀ c ∈ (after.takeWhile isNameChar).map Char.toUpper,
      isNameChar c = true := by
    rw [List.forall_mem_map]
    intro c hc
    exact isNameChar_toUpper (List.all_eq_true.mp List.all_takeWhile c hc)
  have hupper := isNameStart_toUpper hfirst
  unfold scanWord
  dsimp only
  split
  next =>
    refine ⟨first.toUpper,
      (after.takeWhile isNameChar).map Char.toUpper ++ ['$'], ?_, ?_⟩
    · rw [spelled_of_word]
      simp
    · intro later hlater
      have hword : first.toUpper :: (after.takeWhile isNameChar).map Char.toUpper
          ++ ['$'] = (first :: after.takeWhile isNameChar ++ ['$']).map
            Char.toUpper := by simp
      refine ⟨(first :: after.takeWhile isNameChar ++ ['$']).map
        Char.toUpper, ?_⟩
      rw [scan_of_isNameStart hupper, List.append_assoc, List.singleton_append,
        scanWord_dollar_apart hnames, hword, upperWord_map_toUpper]
      rfl
  next =>
    refine ⟨first.toUpper, (after.takeWhile isNameChar).map Char.toUpper, ?_, ?_⟩
    · rw [spelled_of_word]
      simp
    · intro later hlater
      refine ⟨(first :: after.takeWhile isNameChar).map Char.toUpper, ?_⟩
      rw [scan_of_isNameStart hupper, scanWord_apart hnames _ hlater,
        ← List.map_cons, upperWord_map_toUpper]
      rfl

/-! ## Signs -/

/-- A sign in its canonical spelling. -/
theorem rereads_sign (sign : Sign) (written rest : List Char) :
    Lexeme.Rereads ⟨.sign sign, sign.spelling, written, rest⟩ := by
  cases sign
  all_goals
    refine ⟨_, _, String.toList_ofList, ?_⟩
    intro later hlater
    cases later with
    | nil => exact ⟨_, rfl⟩
    | cons c later =>
        obtain rfl : c = ' ' := hlater c rfl
        exact ⟨_, rfl⟩

/-! ## Any token -/

theorem rereads_scan {first : Char} {after : List Char} {lexeme : Lexeme}
    (hscan : scan first after = .ok lexeme) : lexeme.Rereads := by
  cases scanned_of_scan hscan with
  | newline => exact ⟨'\n', [], String.toList_ofList, fun later _ => ⟨_, rfl⟩⟩
  | number hfirst => exact rereads_scanNumber hfirst after
  | string _ hstring => exact rereads_scanString hstring
  | word hfirst => exact rereads_scanWord hfirst after
  | sign sign => exact rereads_sign sign _ _

/-- No token starts with what is skipped between tokens. -/
theorem not_isGap_of_scan {first : Char} {after : List Char} {lexeme : Lexeme}
    (hscan : scan first after = .ok lexeme) : isGap first = false := by
  cases hgap : isGap first with
  | false => rfl
  | true =>
      simp only [isGap, Bool.or_eq_true, decide_eq_true_eq] at hgap
      obtain (rfl | rfl) | rfl := hgap <;> cases after <;> cases hscan

end Lexer

end NumberedBasic
