import NumberedBasic.Decimal.Layout
import NumberedBasic.Proofs.Decimal.Reading
import NumberedBasic.Proofs.Decimal.Shortest

/-!
# Printed numbers

A number is printed as a literal that denotes exactly the decimal that was
chosen for it.  There is an exponent if and only if the number is a sextillion
or more, or less than a millionth; no digit of the literal can be left out, and
a point stands between two digits.
-/

namespace NumberedBasic.Decimal

open Double Text

/-- A numeral without an exponent and without a zero that could be left
out. -/
inductive Plain : List Char → Prop
  | whole {digits : List Char} (hdigits : Leading digits) : Plain digits
  | pointed {whole fraction : List Char}
      (hwhole : Leading whole ∨ whole = ['0']) (hfraction : Trailing fraction) :
      Plain (whole ++ '.' :: fraction)

/-- One digit before the point, no point without digits after it, and an
exponent with its sign; no zero could be left out. -/
inductive Scientific : List Char → Prop
  | whole {digit sign : Char} {exponent : List Char}
      (hdigit : Leading [digit]) (hsign : sign = '+' ∨ sign = '-')
      (hexponent : Leading exponent) :
      Scientific (digit :: 'e' :: sign :: exponent)
  | pointed {digit sign : Char} {fraction exponent : List Char}
      (hdigit : Leading [digit]) (hfraction : Trailing fraction)
      (hsign : sign = '+' ∨ sign = '-') (hexponent : Leading exponent) :
      Scientific (digit :: '.' :: (fraction ++ 'e' :: sign :: exponent))

section Reduced

variable {number : Expansion}

/-! ## Without an exponent -/

theorem numeralValue_pad (digits : List Char) (count : ℕ) :
    numeralValue (digits ++ zeros count) = numeralValue digits * 10 ^ count := by
  rw [zeros, numeralValue_append, numeralValue_zeros, List.length_replicate,
    Nat.add_zero]

theorem numeralValue_zeros_append (count : ℕ) (digits : List Char) :
    numeralValue (zeros count ++ digits) = numeralValue digits := by
  rw [zeros, numeralValue_append, numeralValue_zeros, Nat.zero_mul,
    Nat.zero_add]

theorem ascii_zeros (count : ℕ) : ∀ c ∈ zeros count, c.isDigit = true := by
  intro c hc
  rw [List.eq_of_mem_replicate hc]
  rfl

theorem Leading.append {front back : List Char} (h : Leading front)
    (hback : ∀ c ∈ back, c.isDigit = true) : Leading (front ++ back) := by
  refine ⟨List.append_ne_nil_of_left_ne_nil h.nonempty _,
    List.forall_mem_append.mpr ⟨h.ascii, hback⟩, ?_⟩
  rw [List.head?_append_of_ne_nil _ h.nonempty]
  exact h.first

theorem Trailing.append {front back : List Char} (h : Trailing back)
    (hfront : ∀ c ∈ front, c.isDigit = true) : Trailing (front ++ back) := by
  refine ⟨List.append_ne_nil_of_right_ne_nil _ h.nonempty,
    List.forall_mem_append.mpr ⟨hfront, h.ascii⟩, ?_⟩
  rw [List.getLast?_append_of_ne_nil _ h.nonempty]
  exact h.last

theorem Leading.take {digits : List Char} {count : ℕ} (h : Leading digits)
    (hcount : 0 < count) : Leading (digits.take count) := by
  refine ⟨?_, fun c hc => h.ascii c (List.mem_of_mem_take hc), ?_⟩
  · rw [Ne, List.take_eq_nil_iff]
    exact not_or.mpr ⟨hcount.ne', h.nonempty⟩
  · rw [List.head?_take, if_neg hcount.ne']
    exact h.first

theorem Trailing.drop {digits : List Char} {count : ℕ} (h : Trailing digits)
    (hcount : count < digits.length) : Trailing (digits.drop count) := by
  refine ⟨?_, fun c hc => h.ascii c (List.mem_of_mem_drop hc), ?_⟩
  · rw [Ne, List.drop_eq_nil_iff]
    exact hcount.not_ge
  · rw [List.getLast?_drop, if_neg hcount.not_ge]
    exact h.last

/-- What a positional layout writes: a plain numeral of the same value. -/
theorem Expansion.Reduced.exists_positional (h : number.Reduced) :
    ∃ whole fraction,
      SpellsMantissa whole fraction (positional printed number) ∧
        (numeralValue (whole ++ fraction) : ℚ) *
          10 ^ (0 - (fraction.length : ℤ)) = number.value ∧
        Plain (positional printed number) := by
  have hdigits := digits_of_ascii h.leading.ascii
  rw [positional, Expansion.value]
  split_ifs with hlong hinside
  · -- the digits end before the point
    obtain ⟨count, hcount⟩ := Int.le.dest hlong
    have hzeros : number.point.toNat - number.digits.length = count := by omega
    have hleading := h.leading.append (ascii_zeros count)
    rw [hzeros, show printed.wholeMark.toList = [] from rfl, List.append_nil,
      ← hcount, add_sub_cancel_left, zpow_natCast]
    refine ⟨_, _, .whole hleading.nonempty (digits_of_ascii hleading.ascii),
      ?_, .whole hleading⟩
    rw [List.append_nil, numeralValue_pad]
    push_cast
    simp
  · -- the point is among the digits
    obtain ⟨k, hk⟩ := Int.eq_ofNat_of_zero_le hinside.le
    rw [hk, Int.toNat_natCast]
    have hwhole : Leading (number.digits.take k) := h.leading.take (by omega)
    have hfraction : Trailing (number.digits.drop k) :=
      h.trailing.drop (by omega)
    refine ⟨_, _, .pointed hwhole.nonempty (digits_of_ascii hwhole.ascii)
      (digits_of_ascii hfraction.ascii), ?_, .pointed (.inl hwhole) hfraction⟩
    have hexponent : 0 - ((number.digits.drop k).length : ℤ) =
        k - number.digits.length := by
      rw [List.length_drop]
      omega
    rw [List.take_append_drop, hexponent]
  · -- the digits start after the point
    obtain ⟨k, hk⟩ : ∃ k : ℕ, number.point = -k :=
      ⟨(-number.point).toNat, by omega⟩
    rw [hk, neg_neg, Int.toNat_natCast]
    have hfraction := h.trailing.append (ascii_zeros k)
    refine ⟨['0'], zeros k ++ number.digits,
      .pointed (List.cons_ne_nil _ _)
        (digits_of_ascii (List.forall_mem_singleton.mpr rfl))
        (digits_of_ascii hfraction.ascii), ?_, .pointed (.inr rfl) hfraction⟩
    have hexponent : 0 - ((zeros k ++ number.digits).length : ℤ) =
        -k - number.digits.length := by
      rw [List.length_append, zeros, List.length_replicate]
      omega
    rw [numeralValue_append, show numeralValue ['0'] = 0 from rfl, Nat.zero_mul,
      Nat.zero_add, numeralValue_zeros_append, hexponent]

/-! ## With an exponent -/

/-- An exponent is written with its sign and without zeros before it. -/
theorem exists_exponentText {exponent : ℤ} (hne : exponent ≠ 0) :
    ∃ sign digits, exponentText 1 exponent = sign :: digits ∧
      (sign = '+' ∨ sign = '-') ∧ Leading digits ∧
      SpellsExponent exponent ('e' :: exponentText 1 exponent) := by
  have hdigits := leading_digitsOf (n := exponent.natAbs) (by omega)
  have hlength : 0 < (digitsOf exponent.natAbs).length :=
    Nat.length_toDigits_pos
  have hpad : zeros (1 - (digitsOf exponent.natAbs).length) = [] := by
    rw [show 1 - (digitsOf exponent.natAbs).length = 0 by omega]
    rfl
  have htext : exponentText 1 exponent =
      (if exponent < 0 then '-' else '+') :: digitsOf exponent.natAbs := by
    rw [exponentText, hpad]
    rfl
  have hspells {negative : Bool} {sign : Char} (hsign : SpellsSign negative [sign])
      (hvalue : signedValue negative (digitsOf exponent.natAbs) = exponent) :
      SpellsExponent exponent ('e' :: sign :: digitsOf exponent.natAbs) := by
    have hmarked : SpellsExponent
        (signedValue negative (digitsOf exponent.natAbs))
        ('e' :: ([sign] ++ digitsOf exponent.natAbs)) :=
      .marked (.inl rfl) hsign hdigits.nonempty (digits_of_ascii hdigits.ascii)
    rw [hvalue] at hmarked
    exact hmarked
  rw [htext]
  split_ifs with hnegative
  · refine ⟨_, _, rfl, .inr rfl, hdigits, hspells .minus ?_⟩
    rw [signedValue, if_pos rfl, numeralValue_digitsOf]
    omega
  · refine ⟨_, _, rfl, .inl rfl, hdigits, hspells .plus ?_⟩
    rw [signedValue, if_neg Bool.false_ne_true, numeralValue_digitsOf]
    omega

/-- What a scientific layout writes, unless the exponent is zero: a literal of
the same value, with one digit before the point. -/
theorem Expansion.Reduced.exists_scientific (h : number.Reduced)
    (hpoint : number.point ≠ 1) :
    ∃ whole fraction exponent,
      SpellsMagnitude (.decimal whole fraction exponent)
          (scientific printed number) ∧
        (numeralValue (whole ++ fraction) : ℚ) *
          10 ^ (exponent - (fraction.length : ℤ)) = number.value ∧
        Scientific (scientific printed number) := by
  obtain ⟨sign, exponent, htext, hsign, hexponent, hspells⟩ :=
    exists_exponentText (sub_ne_zero.mpr hpoint)
  obtain ⟨digit, digits, hdigits⟩ :=
    List.exists_cons_of_ne_nil h.leading.nonempty
  have hdigit : Leading [digit] := by
    have htake := h.leading.take Nat.one_pos
    rw [hdigits] at htake
    exact htake
  have hlead := digits_of_ascii hdigit.ascii
  have hscientific : scientific printed number =
      digit :: ((if digits = [] then [] else '.' :: digits) ++
        'e' :: exponentText 1 (number.point - 1)) := by
    rw [scientific, hdigits]
    cases digits <;> rfl
  rw [hscientific, Expansion.value, hdigits]
  split_ifs with hsingle
  · subst hsingle
    refine ⟨[digit], [], number.point - 1, .decimal
      (.whole (List.cons_ne_nil _ _) hlead) hspells, ?_, ?_⟩
    · simp
    · rw [htext]
      exact .whole hdigit hsign hexponent
  · have hfraction : Trailing digits := by
      have hmore : 1 < number.digits.length := by
        rw [hdigits]
        simpa using List.length_pos_iff.mpr hsingle
      have hdrop := h.trailing.drop hmore
      rw [hdigits] at hdrop
      exact hdrop
    refine ⟨[digit], digits, number.point - 1, .decimal
      (.pointed (List.cons_ne_nil _ _) hlead (digits_of_ascii hfraction.ascii))
      hspells, ?_, ?_⟩
    · rw [List.singleton_append, List.length_cons]
      push_cast
      congr 2
      ring
    · rw [htext, List.cons_append]
      exact .pointed hdigit hfraction hsign hexponent

/-! ## The choice between them -/

/-- The text of a magnitude is a literal of the same value, with an exponent
only where the point is far from the digits. -/
theorem Expansion.Reduced.exists_text (h : number.Reduced) :
    ∃ magnitude, SpellsMagnitude magnitude (number.text printed) ∧
      magnitude.value? = some number.value ∧
      if 21 < number.point ∨ number.point ≤ -6 then
        Scientific (number.text printed)
      else Plain (number.text printed) := by
  by_cases hfar : 21 < number.point ∨ number.point ≤ -6
  · have htext : number.text printed = scientific printed number := by
      rw [Expansion.text]
      exact if_neg fun hnear => by
        have hlow : -6 < number.point := hnear.1
        have hhigh : number.point ≤ 21 := hnear.2
        omega
    obtain ⟨whole, fraction, exponent, hspells, hvalue, hscientific⟩ :=
      h.exists_scientific (by omega)
    rw [if_pos hfar, htext]
    exact ⟨_, hspells, congrArg some hvalue, hscientific⟩
  · have htext : number.text printed = positional printed number := by
      rw [Expansion.text]
      exact if_pos ⟨by change -6 < _; omega, by change _ ≤ 21; omega⟩
    obtain ⟨whole, fraction, hspells, hvalue, hplain⟩ := h.exists_positional
    have hmagnitude := SpellsMagnitude.decimal hspells .absent
    rw [List.append_nil] at hmagnitude
    rw [if_neg hfar, htext]
    exact ⟨_, hmagnitude, congrArg some hvalue, hplain⟩

end Reduced

end NumberedBasic.Decimal
