import NumberedBasic.Proofs.Decimal.Spelling
import NumberedBasic.Proofs.Token.Lexing

/-!
# Numerals

The numerals of a source text are made of digits, with a point between two of
them at most.  All of them denote a number.
-/

namespace NumberedBasic

/-- Digits, and maybe a point and further digits. -/
inductive IsNumeral : List Char → Prop where
  | whole {first : Char} {digits : List Char}
      (hdigits : ∀ c ∈ first :: digits, c.isDigit = true) :
      IsNumeral (first :: digits)
  | fraction {first digit : Char} {digits decimals : List Char}
      (hdigits : ∀ c ∈ first :: digits, c.isDigit = true)
      (hdecimals : ∀ c ∈ digit :: decimals, c.isDigit = true) :
      IsNumeral (first :: digits ++ '.' :: digit :: decimals)

namespace IsNumeral

variable {text : List Char}

theorem head (hnumeral : IsNumeral text) :
    ∃ first rest, text = first :: rest ∧ first.isDigit = true := by
  cases hnumeral with
  | whole hdigits => exact ⟨_, _, rfl, hdigits _ List.mem_cons_self⟩
  | fraction hdigits _ => exact ⟨_, _, rfl, hdigits _ List.mem_cons_self⟩

theorem last (hnumeral : IsNumeral text) :
    ∃ front final, text = front ++ [final] ∧ final.isDigit = true := by
  have hlast {first : Char} {digits : List Char}
      (hdigits : ∀ c ∈ first :: digits, c.isDigit = true) :
      ∃ front final, first :: digits = front ++ [final] ∧ final.isDigit = true :=
    ⟨_, _, (List.dropLast_concat_getLast (List.cons_ne_nil first digits)).symm,
      hdigits _ (List.getLast_mem _)⟩
  cases hnumeral with
  | whole hdigits => exact hlast hdigits
  | @fraction first digit digits decimals _ hdecimals =>
      obtain ⟨front, final, hfront, hfinal⟩ := hlast hdecimals
      exact ⟨first :: digits ++ '.' :: front, final, by simp [hfront], hfinal⟩

theorem isDigit_or_point (hnumeral : IsNumeral text) {c : Char} (hc : c ∈ text) :
    c.isDigit = true ∨ c = '.' := by
  cases hnumeral with
  | whole hdigits => exact Or.inl (hdigits c hc)
  | fraction hdigits hdecimals =>
      rcases List.mem_append.mp hc with hwhole | hrest
      · exact Or.inl (hdigits c hwhole)
      · rcases List.mem_cons.mp hrest with hpoint | hdecimal
        · exact Or.inr hpoint
        · exact Or.inl (hdecimals c hdecimal)

/-- A numeral without a point. -/
theorem digits (hnumeral : IsNumeral text)
    (hsigns : text.all Text.isDigitSign = true) :
    ∀ c ∈ text, c.isDigit = true := by
  intro c hc
  apply (hnumeral.isDigit_or_point hc).resolve_right
  rintro rfl
  exact absurd (List.all_eq_true.mp hsigns _ hc) (by decide)

end IsNumeral

/-! ## The numerals of a text -/

namespace Lexer

theorem isNumeral_scanNumber {first : Char} (hfirst : first.isDigit = true)
    (after : List Char) : IsNumeral (scanNumber first after).text.toList := by
  have hdigits : ∀ c ∈ first :: after.takeWhile Char.isDigit,
      c.isDigit = true := by
    rintro c (_ | ⟨_, hc⟩)
    · exact hfirst
    · exact List.all_eq_true.mp List.all_takeWhile c hc
  unfold scanNumber
  dsimp only
  split
  next digit more _ =>
    split
    next hdigit =>
      have hdecimals : ∀ c ∈ digit :: more.takeWhile Char.isDigit,
          c.isDigit = true := by
        rintro c (_ | ⟨_, hc⟩)
        · exact hdigit
        · exact List.all_eq_true.mp List.all_takeWhile c hc
      rw [String.toList_ofList]
      exact .fraction hdigits hdecimals
    next =>
      rw [String.toList_ofList]
      exact .whole hdigits
  next =>
    rw [String.toList_ofList]
    exact .whole hdigits

theorem isNumeral_of_scan {first : Char} {after : List Char} {lexeme : Lexeme}
    (hscan : scan first after = .ok lexeme) (hkind : lexeme.kind = .number) :
    IsNumeral lexeme.text.toList := by
  cases scanned_of_scan hscan with
  | newline => cases hkind
  | number hfirst => exact isNumeral_scanNumber hfirst after
  | string _ hstring =>
      rw [kind_scanString hstring] at hkind
      cases hkind
  | word =>
      rcases kind_scanWord first after with hword | ⟨keyword, hword⟩
      all_goals
        rw [hword] at hkind
        cases hkind
  | sign => cases hkind

theorem Source.Reads.numerals {source : Source} {found : List Token}
    (hreads : source.Reads found) :
    ∀ token ∈ found, token.kind = .number → IsNumeral token.text.toList := by
  induction hreads with
  | done => exact fun _ htoken => absurd htoken List.not_mem_nil
  | more hnext _ ih =>
      intro token htoken hkind
      rcases List.mem_append.mp htoken with hread | hfound
      · obtain hstring | ⟨_, _, _, _, hscan, rfl⟩ := exists_scan_of_mem hnext hread
        · rw [hstring] at hkind
          cases hkind
        · exact isNumeral_of_scan hscan hkind
      · exact ih token hfound hkind

end Lexer

/-! ## The numbers that numerals denote -/

namespace Decimal

variable {text : List Char}

theorem isMargin_of_isDigit {c : Char} (hdigit : c.isDigit = true) :
    isMargin c = false := by
  simp only [Char.isDigit, Bool.and_eq_true, decide_eq_true_eq] at hdigit
  have hlow : 48 ≤ c.toNat := hdigit.1
  have hhigh : c.toNat ≤ 57 := hdigit.2
  simp [isMargin, Text.isBlank, Text.blankRanges, Text.inRanges]
  omega

theorem withoutMargins_numeral (hnumeral : IsNumeral text) :
    withoutMargins text = text := by
  obtain ⟨first, rest, hfirst, hdigit⟩ := hnumeral.head
  obtain ⟨front, final, hfinal, hlast⟩ := hnumeral.last
  have hhead : text.dropWhile isMargin = text := by
    rw [hfirst, List.dropWhile_cons, isMargin_of_isDigit hdigit]
    rfl
  have hreverse : text.reverse.dropWhile isMargin = text.reverse := by
    rw [hfinal, List.reverse_append, List.reverse_singleton, List.singleton_append,
      List.dropWhile_cons, isMargin_of_isDigit hlast]
    rfl
  rw [withoutMargins, hhead, hreverse, List.reverse_reverse]

theorem scanSign_numeral (hnumeral : IsNumeral text) :
    scanSign text = (false, text) := by
  obtain ⟨first, rest, rfl, hdigit⟩ := hnumeral.head
  apply scanSign_append .absent
  rintro _ ⟨⟩
  constructor <;> rintro rfl <;> cases hdigit

theorem toLower_of_isDigit {c : Char} (hdigit : c.isDigit = true) :
    c.toLower = c := by
  simp only [Char.isDigit, Bool.and_eq_true, decide_eq_true_eq] at hdigit
  have hhigh : c.toNat ≤ 57 := hdigit.2
  unfold Char.toLower
  split
  next hletter =>
    have hlow : 65 ≤ c.toNat := hletter.1
    omega
  next => rfl

theorem namedMagnitude?_numeral (hnumeral : IsNumeral text) :
    namedMagnitude? text = none := by
  obtain ⟨first, rest, rfl, hdigit⟩ := hnumeral.head
  have hlower : first.toLower.isDigit = true := by
    rw [toLower_of_isDigit hdigit]
    exact hdigit
  have hword {word : String} {c : Char} {others : List Char}
      (heq : String.ofList ((first :: rest).map Char.toLower) = word)
      (hletters : word.toList = c :: others) : c.isDigit = true := by
    rw [← heq, String.toList_ofList] at hletters
    cases hletters
    exact hlower
  unfold namedMagnitude?
  split
  next heq => exact absurd (hword heq rfl) (by decide)
  next heq => exact absurd (hword heq rfl) (by decide)
  next heq => exact absurd (hword heq rfl) (by decide)
  next => rfl

theorem separatorsFit_numeral (hplain : ∀ c ∈ text, c ≠ '_') (afterDigit : Bool) :
    separatorsFit afterDigit text = true := by
  induction text generalizing afterDigit with
  | nil => rfl
  | cons c rest ih =>
      have hc := hplain c List.mem_cons_self
      unfold separatorsFit
      split
      next => rfl
      next heq => exact absurd (List.cons.inj heq).1 hc
      next heq =>
        obtain ⟨rfl, rfl⟩ := List.cons.inj heq
        exact ih (fun c hc => hplain c (List.mem_cons_of_mem _ hc)) _

/-- A numeral spells a literal that has neither sign nor exponent. -/
theorem exists_spells_numeral (hnumeral : IsNumeral text) :
    ∃ literal, Literal.Spells literal text := by
  have hmantissa : ∃ whole fraction, SpellsMantissa whole fraction text := by
    cases hnumeral with
    | whole hdigits =>
        exact ⟨_, _, .whole (List.cons_ne_nil _ _) (digits_of_ascii hdigits)⟩
    | fraction hdigits hdecimals =>
        exact ⟨_, _, .pointed (List.cons_ne_nil _ _) (digits_of_ascii hdigits)
          (digits_of_ascii hdecimals)⟩
  obtain ⟨whole, fraction, hmantissa⟩ := hmantissa
  have hspells := Literal.Spells.intro .absent (.decimal hmantissa .absent)
  rw [List.append_nil, List.nil_append] at hspells
  exact ⟨_, hspells⟩

theorem entireNumber?_numeral {literal : Literal} (hnumeral : IsNumeral text)
    (hspells : literal.Spells text) :
    entireNumber? text = some literal.toFloat := by
  have hplain : ∀ c ∈ text, c ≠ '_' := by
    rintro c hc rfl
    rcases hnumeral.isDigit_or_point hc with hdigit | hpoint
    · cases hdigit
    · cases hpoint
  have hfilter : text.filter (· ≠ '_') = text :=
    List.filter_eq_self.mpr fun c hc => decide_eq_true (hplain c hc)
  rw [entireNumber?, withoutMargins_numeral hnumeral]
  dsimp only
  rw [scanSign_numeral hnumeral]
  dsimp only
  rw [namedMagnitude?_numeral hnumeral]
  dsimp only
  rw [if_pos (separatorsFit_numeral hplain false), hfilter,
    scan?_of_spells hspells]

theorem exists_entireNumber? (hnumeral : IsNumeral text) :
    ∃ x, entireNumber? text = some x := by
  obtain ⟨literal, hspells⟩ := exists_spells_numeral hnumeral
  exact ⟨literal.toFloat, entireNumber?_numeral hnumeral hspells⟩

end Decimal

end NumberedBasic
