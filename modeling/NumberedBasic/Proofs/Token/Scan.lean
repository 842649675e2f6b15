import NumberedBasic.Token.Lexer

/-!
# Single tokens

The token at the front of a text takes a nonempty piece off it.  It looks no
further than the end of its line, so that it is the same if more lines follow.
-/

namespace NumberedBasic

namespace Lexer

/-! ## What starts a token -/

/-- The first character of a text decides how the token there is read. -/
inductive Scanned (first : Char) (after : List Char) : Lexeme → Prop where
  | newline (hfirst : first = '\n') :
      Scanned first after ⟨.newline, "\n", ['\n'], after⟩
  | number (hfirst : first.isDigit = true) :
      Scanned first after (scanNumber first after)
  | string {lexeme : Lexeme} (hfirst : first = '"')
      (hscan : scanString after = .ok lexeme) : Scanned first after lexeme
  | word (hfirst : isNameStart first = true) :
      Scanned first after (scanWord first after)
  | sign (sign : Sign) {written rest : List Char} (hwritten : written ≠ [])
      (htext : written ++ rest = first :: after) :
      Scanned first after ⟨.sign sign, sign.spelling, written, rest⟩

theorem scanned_of_scanSingle {first : Char} {after : List Char}
    {lexeme : Lexeme} (hscan : scanSingle first after = .ok lexeme) :
    Scanned first after lexeme := by
  rw [scanSingle] at hscan
  split at hscan <;> cases hscan
  exact .sign _ (List.cons_ne_nil _ _) rfl

theorem scanned_of_scanSign {first : Char} {after : List Char}
    {lexeme : Lexeme} (hscan : scanSign first after = .ok lexeme) :
    Scanned first after lexeme := by
  cases after with
  | nil => exact scanned_of_scanSingle hscan
  | cons second rest =>
      unfold scanSign at hscan
      dsimp only at hscan
      split at hscan
      · cases hscan
        exact .sign _ (List.cons_ne_nil _ _) rfl
      · exact scanned_of_scanSingle hscan

theorem scanned_of_scan {first : Char} {after : List Char} {lexeme : Lexeme}
    (hscan : scan first after = .ok lexeme) : Scanned first after lexeme := by
  rw [scan] at hscan
  split at hscan
  next hfirst =>
    cases hscan
    exact .newline hfirst
  split at hscan
  next hfirst =>
    cases hscan
    exact .number hfirst
  split at hscan
  next hfirst => exact .string hfirst hscan
  split at hscan
  next hfirst =>
    cases hscan
    exact .word hfirst
  next => exact scanned_of_scanSign hscan

theorem kind_scanNumber (first : Char) (after : List Char) :
    (scanNumber first after).kind = .number := by
  unfold scanNumber
  dsimp only
  split
  · split <;> rfl
  · rfl

theorem kind_scanString {after : List Char} {lexeme : Lexeme}
    (hscan : scanString after = .ok lexeme) : lexeme.kind = .string := by
  unfold scanString at hscan
  dsimp only at hscan
  split at hscan <;> cases hscan
  rfl

theorem kind_scanWord (first : Char) (after : List Char) :
    (scanWord first after).kind = .identifier ∨
      ∃ keyword, (scanWord first after).kind = .keyword keyword := by
  have hkind (word : String) :
      wordKind word = .identifier ∨ ∃ keyword, wordKind word = .keyword keyword := by
    unfold wordKind
    split
    · exact Or.inr ⟨_, rfl⟩
    · exact Or.inl rfl
  exact hkind _

/-! ## What a token takes off the text -/

/-- The lexeme was written at the front of the text. -/
structure Lexeme.StartsText (lexeme : Lexeme) (text : List Char) : Prop where
  text : lexeme.written ++ lexeme.rest = text
  nonempty : lexeme.written ≠ []
  kind : lexeme.kind ≠ .endOfInput

theorem startsText_scanNumber (first : Char) (after : List Char) :
    (scanNumber first after).StartsText (first :: after) := by
  have hwhole : after.takeWhile Char.isDigit ++ after.dropWhile Char.isDigit =
      after := List.takeWhile_append_dropWhile
  rw [scanNumber]
  dsimp only
  split
  next digit more hrest =>
    rw [hrest] at hwhole
    split
    · refine ⟨?_, List.cons_ne_nil _ _, nofun⟩
      simp [List.takeWhile_append_dropWhile, hwhole]
    · exact ⟨congrArg (first :: ·) hwhole, List.cons_ne_nil _ _, nofun⟩
  next => exact ⟨congrArg (first :: ·) hwhole, List.cons_ne_nil _ _, nofun⟩

theorem startsText_scanString {after : List Char} {lexeme : Lexeme}
    (hscan : scanString after = .ok lexeme) :
    lexeme.StartsText ('"' :: after) := by
  have hwhole : after.takeWhile (· ≠ '"') ++ after.dropWhile (· ≠ '"') =
      after := List.takeWhile_append_dropWhile
  unfold scanString at hscan
  dsimp only at hscan
  split at hscan
  next => cases hscan
  next quote rest hrest =>
    cases hscan
    rw [hrest] at hwhole
    refine ⟨?_, List.cons_ne_nil _ _, nofun⟩
    simp only [List.cons_append, List.append_assoc, List.nil_append, hwhole]

theorem startsText_scanWord (first : Char) (after : List Char) :
    (scanWord first after).StartsText (first :: after) := by
  have hwhole : after.takeWhile isNameChar ++ after.dropWhile isNameChar =
      after := List.takeWhile_append_dropWhile
  have hkind : (scanWord first after).kind ≠ .endOfInput := by
    rcases kind_scanWord first after with hword | ⟨keyword, hword⟩
    all_goals
      rw [hword]
      exact TokenKind.noConfusion
  refine ⟨?_, ?_, hkind⟩
  · unfold scanWord
    dsimp only
    split
    next rest hrest =>
      rw [hrest] at hwhole
      simp [hwhole]
    next => exact congrArg (first :: ·) hwhole
  · unfold scanWord
    dsimp only
    split <;> exact List.cons_ne_nil _ _

theorem startsText_scan {first : Char} {after : List Char} {lexeme : Lexeme}
    (hscan : scan first after = .ok lexeme) :
    lexeme.StartsText (first :: after) := by
  cases scanned_of_scan hscan with
  | newline hfirst =>
      exact ⟨congrArg (· :: after) hfirst.symm, List.cons_ne_nil _ _, nofun⟩
  | number => exact startsText_scanNumber first after
  | string hfirst hstring =>
      rw [hfirst]
      exact startsText_scanString hstring
  | word => exact startsText_scanWord first after
  | sign _ hwritten htext => exact ⟨htext, hwritten, nofun⟩

/-! ## Further lines -/

section FurtherLines

variable (more : List Char)

/-- A text with further lines after its last. -/
def withLines (text : List Char) : List Char := text ++ '\n' :: more

def Lexeme.withLines (lexeme : Lexeme) : Lexeme :=
  { lexeme with rest := Lexer.withLines more lexeme.rest }

theorem withLines_cons (c : Char) (text : List Char) :
    withLines more (c :: text) = c :: withLines more text := rfl

/-- A search that stops within a text, or at the end of its line, finds the
same with further lines. -/
theorem span_withLines (passes : Char → Bool) (text : List Char)
    (hstops : text.dropWhile passes ≠ [] ∨ passes '\n' = false) :
    (withLines more text).takeWhile passes = text.takeWhile passes ∧
    (withLines more text).dropWhile passes =
      withLines more (text.dropWhile passes) := by
  induction text with
  | nil =>
      have hpasses : passes '\n' = false :=
        hstops.resolve_left fun hnil => hnil rfl
      simp [withLines, hpasses]
  | cons c text ih =>
      rw [withLines_cons]
      rw [List.dropWhile_cons] at hstops
      simp only [List.takeWhile_cons, List.dropWhile_cons]
      cases hpasses : passes c with
      | true =>
          rw [hpasses] at hstops
          obtain ⟨htaken, hdropped⟩ := ih hstops
          exact ⟨congrArg (c :: ·) htaken, hdropped⟩
      | false => exact ⟨rfl, rfl⟩

end FurtherLines

section Scans

variable (more : List Char)

theorem scanNumber_withLines (first : Char) (after : List Char) :
    scanNumber first (withLines more after) =
      (scanNumber first after).withLines more := by
  obtain ⟨htaken, hdropped⟩ :=
    span_withLines more Char.isDigit after (Or.inr rfl)
  unfold scanNumber
  rw [htaken, hdropped]
  rcases after.dropWhile Char.isDigit with _ | ⟨c, _ | ⟨digit, rest⟩⟩
  · rfl
  · by_cases hc : c = '.'
    · subst hc
      rfl
    · simp [withLines, hc, Lexeme.withLines]
  · by_cases hc : c = '.'
    · subst hc
      obtain ⟨hdigits, hrest⟩ := span_withLines more Char.isDigit rest
        (Or.inr rfl)
      rw [withLines_cons, withLines_cons]
      by_cases hdigit : digit.isDigit = true
      · simp [hdigit, hdigits, hrest, Lexeme.withLines]
      · simp [hdigit, withLines_cons, Lexeme.withLines]
    · simp [withLines, hc, Lexeme.withLines]

theorem scanWord_withLines (first : Char) (after : List Char) :
    scanWord first (withLines more after) =
      (scanWord first after).withLines more := by
  obtain ⟨htaken, hdropped⟩ :=
    span_withLines more isNameChar after (Or.inr rfl)
  unfold scanWord
  rw [htaken, hdropped]
  rcases after.dropWhile isNameChar with _ | ⟨c, rest⟩
  · rfl
  · by_cases hc : c = '$'
    · subst hc
      rfl
    · simp [withLines, hc, Lexeme.withLines]

/-- A string that is closed ends where it did. -/
theorem scanString_withLines {after : List Char} {lexeme : Lexeme}
    (hscan : scanString after = .ok lexeme) :
    scanString (withLines more after) = .ok (lexeme.withLines more) := by
  unfold scanString at hscan ⊢
  dsimp only at hscan ⊢
  cases hdrop : after.dropWhile (· ≠ '"') with
  | nil =>
      rw [hdrop] at hscan
      cases hscan
  | cons quote rest =>
      obtain ⟨htaken, hdropped⟩ := span_withLines more (· ≠ '"') after
        (Or.inl (hdrop ▸ List.cons_ne_nil quote rest))
      rw [hdrop] at hscan hdropped
      rw [htaken, hdropped]
      cases hscan
      rfl

theorem scanSingle_withLines {first : Char} {after : List Char}
    {lexeme : Lexeme} (hscan : scanSingle first after = .ok lexeme) :
    scanSingle first (withLines more after) = .ok (lexeme.withLines more) := by
  rw [scanSingle] at hscan ⊢
  split at hscan <;> cases hscan
  rfl

theorem doubleSign?_newline (first : Char) : doubleSign? first '\n' = none := by
  unfold doubleSign?
  split <;> first | rfl | simp_all

theorem scanSign_withLines {first : Char} {after : List Char}
    {lexeme : Lexeme} (hscan : scanSign first after = .ok lexeme) :
    scanSign first (withLines more after) = .ok (lexeme.withLines more) := by
  cases after with
  | nil =>
      change scanSign first ('\n' :: more) = _
      rw [scanSign, doubleSign?_newline]
      exact scanSingle_withLines more hscan
  | cons second rest =>
      rw [withLines_cons]
      unfold scanSign at hscan ⊢
      dsimp only at hscan ⊢
      split at hscan
      · cases hscan
        rfl
      · exact scanSingle_withLines more hscan

/-- The token at the front of a text does not depend on the lines after it. -/
theorem scan_withLines {first : Char} {after : List Char} {lexeme : Lexeme}
    (hscan : scan first after = .ok lexeme) :
    scan first (withLines more after) = .ok (lexeme.withLines more) := by
  rw [scan] at hscan ⊢
  split at hscan
  next hnewline =>
    rw [if_pos hnewline]
    cases hscan
    rfl
  next hnewline =>
    rw [if_neg hnewline]
    split at hscan
    next hdigit =>
      rw [if_pos hdigit, scanNumber_withLines]
      cases hscan
      rfl
    next hdigit =>
      rw [if_neg hdigit]
      split at hscan
      next hquote =>
        rw [if_pos hquote]
        exact scanString_withLines more hscan
      next hquote =>
        rw [if_neg hquote]
        split at hscan
        next hname =>
          rw [if_pos hname, scanWord_withLines]
          cases hscan
          rfl
        next hname =>
          rw [if_neg hname]
          exact scanSign_withLines more hscan

end Scans

end Lexer

end NumberedBasic
