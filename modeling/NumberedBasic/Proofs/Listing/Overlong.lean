import NumberedBasic.Proofs.Listing.Source
import NumberedBasic.Proofs.Refusal.Program

/-!
# Overlong numerals

A text without a long run of digits has no numeral that is too long to be
converted, and neither have the lines that are stored from such texts, or their
source text as a whole.
-/

namespace NumberedBasic

/-- There are more digits in a row than a whole number may have. -/
def Text.Overlong (text : List Char) : Prop :=
  ∃ digits, digits <:+: text ∧ (∀ c ∈ digits, isDigit c = true) ∧
    longestNumeral < digits.length

namespace Text

variable {text whole front back : List Char} {c : Char}

theorem Overlong.mono (hoverlong : Overlong text) (hpart : text <:+: whole) :
    Overlong whole := by
  obtain ⟨digits, hdigits, hall, hlong⟩ := hoverlong
  exact ⟨digits, hdigits.trans hpart, hall, hlong⟩

/-- A run of digits does not go on across another character. -/
theorem Overlong.split (hoverlong : Overlong (front ++ c :: back))
    (hc : isDigit c = false) : Overlong front ∨ Overlong back := by
  obtain ⟨digits, hdigits, hall, hlong⟩ := hoverlong
  have hother : c ∉ digits := by
    intro hmem
    rw [hall c hmem] at hc
    cases hc
  have hempty {start : List Char} (hstart : c ∉ start)
      (hbegins : start <+: c :: back) : start = [] := by
    rcases List.prefix_cons_iff.mp hbegins with hnil | ⟨rest, rfl, -⟩
    · exact hnil
    · exact absurd List.mem_cons_self hstart
  rcases List.infix_append_iff.mp hdigits with hfront | hback | hacross
  · exact .inl ⟨digits, hfront, hall, hlong⟩
  · rcases List.infix_cons_iff.mp hback with hbegins | hbehind
    · rw [hempty hother hbegins] at hlong
      cases hlong
    · exact .inr ⟨digits, hbehind, hall, hlong⟩
  · obtain ⟨early, late, rfl, hearly, hlate⟩ := hacross
    obtain rfl := hempty (fun hmem => hother (List.mem_append_right _ hmem)) hlate
    rw [List.append_nil] at hall hlong
    exact .inl ⟨early, hearly.isInfix, hall, hlong⟩

/-- A text begins with what is left of it when its end is cut off. -/
theorem not_overlong_of_length (hshort : text.length ≤ longestNumeral) :
    ¬Overlong text := by
  rintro ⟨digits, hdigits, -, hlong⟩
  have hlength := hdigits.length_le
  omega

end Text

/-! ## Source texts -/

namespace Lexer

theorem infix_of_scan {first : Char} {after : List Char} {lexeme : Lexeme}
    (hscan : scan first after = .ok lexeme) (hkind : lexeme.kind = .number) :
    lexeme.text.toList <:+: first :: after := by
  have hstarts := startsText_scan hscan
  have htext : lexeme.text = String.ofList lexeme.written := by
    cases scanned_of_scan hscan with
    | newline => cases hkind
    | number =>
        unfold scanNumber
        dsimp only
        split
        · split <;> rfl
        · rfl
    | string _ hstring =>
        rw [kind_scanString hstring] at hkind
        cases hkind
    | word =>
        rcases kind_scanWord first after with hword | ⟨keyword, hword⟩
        all_goals
          rw [hword] at hkind
          cases hkind
    | sign => cases hkind
  rw [htext, String.toList_ofList, ← hstarts.text]
  exact (List.prefix_append _ _).isInfix

/-- What a numeral consists of stands in the source text. -/
theorem Source.Reads.infix_of_numeral {source : Source} {found : List Token}
    (hreads : source.Reads found) :
    ∀ numeral ∈ found, numeral.kind = .number →
      numeral.text.toList <:+: source.text := by
  induction hreads with
  | done => exact fun _ hnumeral => absurd hnumeral List.not_mem_nil
  | @more source rest read found hnext _ ih =>
      obtain ⟨gap, hgap, -⟩ := source.reaches_skipGap
      obtain ⟨taken, htaken, -⟩ := (next_reaches hnext).1
      intro numeral hnumeral hkind
      rcases List.mem_append.mp hnumeral with hread | hfound
      · obtain hstring | ⟨first, after, lexeme, htext, hscan, rfl⟩ :=
          exists_scan_of_mem hnext hread
        · rw [hstring] at hkind
          cases hkind
        · rw [hgap, htext]
          exact (infix_of_scan hscan hkind).trans
            (List.suffix_append _ _).isInfix
      · rw [hgap, htaken]
        exact (ih numeral hfound hkind).trans
          ((List.suffix_append _ _).trans (List.suffix_append _ _)).isInfix

end Lexer

/-- A text that is too hard to read has an overlong numeral. -/
theorem Program.overlong_of_parse [Host] {source : String}
    (hparse : Program.parse source = .error .unreadableNumeral) :
    Text.Overlong source.toList := by
  cases htokens : tokenise source with
  | error error =>
      rw [Program.parse, htokens] at hparse
      cases hparse
  | ok tokens =>
      obtain ⟨front, later, closing, back, rfl, -, hblames, -⟩ :=
        exists_firstUnviable_of_parse htokens hparse
          (Option.some_ne_none _).symm
      cases hblames with
      | unreadable hkind hunreadable =>
          obtain ⟨hdigits, hlong⟩ := hunreadable.overlong
            (isNumeral_of_tokenise htokens (by simp) hkind)
          obtain ⟨found, hreads⟩ := Lexer.Source.exists_reads htokens
          have hall := Except.ok.inj (hreads.tokens.symm.trans htokens)
          have hfound : later.peek ∈ found := by
            have hmem : later.peek ∈ front ++ later.peek :: back := by simp
            rw [← hall] at hmem
            apply (List.mem_append.mp hmem).resolve_right
            intro hfinal
            rw [List.mem_singleton.mp hfinal] at hkind
            cases hkind
          exact ⟨_, hreads.infix_of_numeral _ hfound hkind,
            fun c hc => Text.isDigit_ascii (hdigits c hc), hlong⟩

/-! ## Stored lines -/

namespace Listing

/-- What is made of a text that starts with a number. -/
theorem numbered_cases (text : String) :
    (splitNumber text).1 = [] ∧ numbered text = .error (.unnumbered text) ∨
    (splitNumber text).1 ≠ [] ∧
      if (splitNumber text).1.length ≤ Text.longestNumeral then
        numbered text = .ok (Text.numeralValue (splitNumber text).1,
          String.ofList (Text.trim (splitNumber text).2))
      else numbered text = .error .unreadableNumeral := by
  unfold numbered Text.wholeNumber?
  rcases splitNumber text with ⟨_ | ⟨first, digits⟩, rest⟩
  · exact .inl ⟨rfl, rfl⟩
  · refine .inr ⟨List.cons_ne_nil _ _, ?_⟩
    dsimp only
    split <;> rfl

/-- The number and what follows it are parts of the text. -/
theorem infix_splitNumber (text : String) :
    (splitNumber text).1 <:+: text.toList ∧
      (splitNumber text).2 <:+: text.toList := by
  have hleft : Text.trimLeft text.toList <:+ text.toList :=
    List.dropWhile_suffix _
  exact ⟨(List.takeWhile_prefix _).isInfix.trans hleft.isInfix,
    ((List.dropWhile_suffix _).trans hleft).isInfix⟩

theorem overlong_of_numbered {text : String}
    (hnumbered : numbered text = .error .unreadableNumeral) :
    Text.Overlong text.toList := by
  rcases numbered_cases text with ⟨-, hcase⟩ | ⟨-, hcase⟩
  · rw [hcase] at hnumbered
    cases hnumbered
  · split at hcase
    · rw [hcase] at hnumbered
      cases hnumbered
    next hlong =>
      exact ⟨_, (infix_splitNumber text).1,
        fun c hc => List.all_eq_true.mp List.all_takeWhile c hc,
        Nat.lt_of_not_le hlong⟩

/-- The line that is stored has no longer numerals than the text that was
typed. -/
theorem overlong_of_lineText {text : String} {line : ℕ × String}
    (hnumbered : numbered text = .ok line)
    (hoverlong : Text.Overlong (lineText line).toList) :
    Text.Overlong text.toList := by
  rw [toList_lineText] at hoverlong
  rcases numbered_cases text with ⟨-, hcase⟩ | ⟨hdigits, hcase⟩
  · rw [hcase] at hnumbered
    cases hnumbered
  · split at hcase
    next hshort =>
      obtain rfl := Except.ok.inj (hcase.symm.trans hnumbered)
      rcases hoverlong.split (by decide) with hfront | hback
      · refine absurd hfront (Text.not_overlong_of_length ?_)
        exact (Decimal.length_digitsOf_numeralValue_le hdigits).trans hshort
      · rw [String.toList_ofList] at hback
        exact hback.mono ((Text.infix_trim _).trans (infix_splitNumber text).2)
    · rw [hcase] at hnumbered
      cases hnumbered

theorem mem_put {listing : Listing} {number : ℕ} {code : String}
    {line : ℕ × String} (hline : line ∈ (listing.put number code).lines) :
    line = (number, code) ∨ line ∈ listing.lines := by
  unfold put at hline
  dsimp only at hline
  split at hline
  · exact .inr (List.mem_of_mem_filter hline)
  · exact mem_insertLine hline

theorem overlong_of_source {listing : Listing}
    (hoverlong : Text.Overlong listing.source.toList) :
    ∃ line ∈ listing.list, Text.Overlong line.toList := by
  rw [source] at hoverlong
  generalize listing.list = lines at hoverlong ⊢
  induction lines with
  | nil => exact absurd hoverlong (Text.not_overlong_of_length (Nat.zero_le _))
  | cons line rest ih =>
      cases rest with
      | nil => exact ⟨line, List.mem_cons_self, by simpa using hoverlong⟩
      | cons next rest =>
          rw [String.intercalate_cons_cons, String.toList_append,
            String.toList_append, List.append_assoc] at hoverlong
          rcases hoverlong.split (by decide) with hline | hrest
          · exact ⟨line, List.mem_cons_self, hline⟩
          · obtain ⟨other, hother, hoverlong⟩ := ih hrest
            exact ⟨other, List.mem_cons_of_mem _ hother, hoverlong⟩

end Listing

end NumberedBasic
