import Mathlib.Algebra.Order.Group.Nat
import Mathlib.Tactic.Ring
import NumberedBasic.Decimal.Shortest
import NumberedBasic.Text.Digit

/-!
# The value of a numeral

The digits of a numeral, of whatever script, give its value, and the decimal
digits of a number give the number back.
-/

namespace NumberedBasic.Text

theorem digitValue_lt (c : Char) : digitValue c < 10 := by
  rw [digitValue, digitValue?]
  cases hfind : zeroDigits.find? fun start =>
      start ≤ c.toNat && c.toNat < start + 10 with
  | none => exact Nat.succ_pos 9
  | some start =>
      have hrange := List.find?_some hfind
      simp only [Bool.and_eq_true, decide_eq_true_eq] at hrange
      change c.toNat - start < 10
      omega

theorem numeralValue_lt (digits : List Char) :
    numeralValue digits < 10 ^ digits.length := by
  have hfold (start : ℕ) :
      digits.foldl (fun value c => 10 * value + digitValue c) start <
        (start + 1) * 10 ^ digits.length := by
    induction digits generalizing start with
    | nil => simp
    | cons c digits ih =>
        have hvalue : 10 * start + digitValue c + 1 ≤ (start + 1) * 10 := by
          have hc := digitValue_lt c
          omega
        calc
          _ < (10 * start + digitValue c + 1) * 10 ^ digits.length := ih _
          _ ≤ (start + 1) * 10 * 10 ^ digits.length :=
            Nat.mul_le_mul_right _ hvalue
          _ = (start + 1) * 10 ^ (c :: digits).length := by
            rw [List.length_cons, Nat.pow_succ', Nat.mul_assoc]
  simpa [numeralValue] using hfold 0

/-- Digits written one after the other. -/
theorem numeralValue_append (front back : List Char) :
    numeralValue (front ++ back) =
      numeralValue front * 10 ^ back.length + numeralValue back := by
  have hfold (start : ℕ) :
      back.foldl (fun value c => 10 * value + digitValue c) start =
        start * 10 ^ back.length + numeralValue back := by
    unfold numeralValue
    induction back generalizing start with
    | nil => simp
    | cons c back ih =>
        rw [List.foldl_cons, ih, List.foldl_cons, ih (10 * 0 + digitValue c),
          List.length_cons]
        ring
  rw [numeralValue, List.foldl_append]
  exact hfold _

theorem numeralValue_zeros (count : ℕ) :
    numeralValue (List.replicate count '0') = 0 := by
  induction count with
  | zero => rfl
  | succ count ih =>
      rw [List.replicate_succ, ← List.singleton_append, numeralValue_append, ih]
      simp [show numeralValue ['0'] = 0 from rfl]

theorem numeralValue_eq_ofDigitChars {digits : List Char}
    (hdigits : ∀ c ∈ digits, c.isDigit = true) :
    numeralValue digits = Nat.ofDigitChars 10 digits 0 := by
  have hfold (start : Nat) :
      digits.foldl (fun value c => 10 * value + digitValue c) start =
        Nat.ofDigitChars 10 digits start := by
    induction digits generalizing start with
    | nil => rfl
    | cons c digits ih =>
        have hvalue : digitValue c = c.toNat - '0'.toNat := by
          rw [digitValue, digitValue?_ascii (hdigits c List.mem_cons_self)]
          rfl
        rw [List.foldl_cons, Nat.ofDigitChars_cons, hvalue]
        exact ih (fun other hother => hdigits other (List.mem_cons_of_mem _ hother)) _
  exact hfold 0

end NumberedBasic.Text

namespace NumberedBasic.Decimal

open Text

theorem isDigit_of_mem_digitsOf {n : ℕ} {c : Char} (hc : c ∈ digitsOf n) :
    c.isDigit = true :=
  Nat.isDigit_of_mem_toDigits (by decide) (by decide) hc

/-- The decimal digits of a number spell it. -/
theorem numeralValue_digitsOf (n : ℕ) : numeralValue (digitsOf n) = n := by
  rw [numeralValue_eq_ofDigitChars fun _ => isDigit_of_mem_digitsOf]
  exact Nat.ofDigitChars_ten_toDigits

theorem digitsOf_ne_nil (n : ℕ) : digitsOf n ≠ [] :=
  Nat.toDigits_ne_nil

/-- The number of digits tells the size of a number. -/
theorem le_of_length_digitsOf {n : ℕ} (hn : 0 < n) :
    10 ^ ((digitsOf n).length - 1) ≤ n := by
  by_contra hlt
  rcases Nat.eq_zero_or_pos ((digitsOf n).length - 1) with hone | hmore
  · rw [hone] at hlt
    omega
  · have hshort := (Nat.length_toDigits_le_iff (by decide) hmore).mpr
      (Nat.lt_of_not_le hlt)
    change (digitsOf n).length ≤ _ at hshort
    omega

/-- A numeral is no shorter than the digits of its value. -/
theorem length_digitsOf_numeralValue_le {digits : List Char}
    (hdigits : digits ≠ []) :
    (digitsOf (numeralValue digits)).length ≤ digits.length :=
  (Nat.length_toDigits_le_iff (by decide) (List.length_pos_iff.mpr hdigits)).mpr
    (numeralValue_lt digits)

theorem lt_of_length_digitsOf (n : ℕ) : n < 10 ^ (digitsOf n).length :=
  (Nat.length_toDigits_le_iff (by decide) Nat.length_toDigits_pos).mp le_rfl

end NumberedBasic.Decimal
