import NumberedBasic.Proofs.Decimal.Shortest
import NumberedBasic.Proofs.Value.Order

/-!
# The limits of notation without an exponent

The position of the point tells on which side of a power of ten a decimal is.
For the two powers of ten at which printed numbers begin to have an exponent,
the decimal of a double is on the same side as the double itself, although
a millionth is no double.
-/

namespace NumberedBasic.Decimal

open Double Text Float.Model UnpackedFloat

/-! ## The position of the point -/

theorem numeralValue_pos_of_digit {c : Char} (hdigit : c.isDigit = true)
    (hc : c ≠ '0') : 0 < numeralValue [c] := by
  have hvalue : numeralValue [c] = c.toNat - '0'.toNat := by
    rw [numeralValue, List.foldl_cons, List.foldl_nil, digitValue,
      digitValue?_ascii hdigit]
    exact Nat.zero_add _
  have hlow : '0'.toNat ≤ c.toNat := (Char.isDigit_iff_toNat.mp hdigit).1
  have hne : '0'.toNat ≠ c.toNat := fun heq => hc (Char.toNat_inj.mp heq).symm
  rw [hvalue]
  omega

theorem Leading.le_numeralValue {digits : List Char} (h : Leading digits) :
    10 ^ (digits.length - 1) ≤ numeralValue digits := by
  obtain ⟨digit, digits, rfl⟩ := List.exists_cons_of_ne_nil h.nonempty
  have hdigit := numeralValue_pos_of_digit (h.ascii digit List.mem_cons_self)
    fun hzero => h.first (congrArg some hzero)
  rw [List.length_cons, Nat.add_sub_cancel, ← List.singleton_append,
    numeralValue_append]
  calc 10 ^ digits.length ≤ numeralValue [digit] * 10 ^ digits.length :=
        Nat.le_mul_of_pos_left _ hdigit
    _ ≤ _ := Nat.le_add_right _ _

/-- A decimal lies between the powers of ten at the position of its point. -/
theorem Expansion.Reduced.bounds {number : Expansion} (h : number.Reduced) :
    (10 : ℚ) ^ (number.point - 1) ≤ number.value ∧
      number.value < 10 ^ number.point := by
  have hten : (10 : ℚ) ≠ 0 := by norm_num
  have hunit : (0 : ℚ) < 10 ^ (number.point - number.digits.length) := by
    positivity
  have hlength := List.length_pos_iff.mpr h.leading.nonempty
  have hlow : ((10 ^ (number.digits.length - 1) : ℕ) : ℚ) ≤
      numeralValue number.digits := by
    exact_mod_cast h.leading.le_numeralValue
  have hhigh : (numeralValue number.digits : ℚ) <
      (10 ^ number.digits.length : ℕ) := by
    exact_mod_cast numeralValue_lt number.digits
  have hsplit (count : ℕ) : ((10 ^ count : ℕ) : ℚ) *
      10 ^ (number.point - number.digits.length) =
        10 ^ (number.point - number.digits.length + count) := by
    rw [zpow_add₀ hten, zpow_natCast, Nat.cast_pow, Nat.cast_ofNat, mul_comm]
  have hlow := mul_le_mul_of_nonneg_right hlow hunit.le
  have hhigh := mul_lt_mul_of_pos_right hhigh hunit
  rw [hsplit] at hlow hhigh
  rw [sub_add_cancel] at hhigh
  rw [show number.point - number.digits.length +
    ((number.digits.length - 1 : ℕ) : ℤ) = number.point - 1 by omega] at hlow
  exact ⟨hlow, hhigh⟩

theorem Expansion.Reduced.pow_le_iff {number : Expansion} (h : number.Reduced)
    (exponent : ℤ) :
    10 ^ exponent ≤ number.value ↔ exponent < number.point := by
  obtain ⟨hlow, hhigh⟩ := h.bounds
  constructor
  · intro hle
    exact (zpow_lt_zpow_iff_right₀ (by norm_num)).mp (hle.trans_lt hhigh)
  · intro hlt
    exact (zpow_le_zpow_right₀ (by norm_num) (by omega)).trans hlow

/-! ## Doubles in order -/

theorem le_iff_lex {x y : Float} {m n : ℕ} {p q : ℤ} {hm : 0 < m} {hn : 0 < n}
    (hx : x.toModel.unpack = .finite .positive m p hm)
    (hy : y.toModel.unpack = .finite .positive n q hn) :
    x ≤ y ↔ p < q ∨ p = q ∧ m ≤ n := by
  have hrank : signedRank .positive 1 p m ≤ signedRank .positive 1 q n ↔
      p < q ∨ p = q ∧ m ≤ n := by
    simp [signedRank, Prod.Lex.toLex_le_toLex]
  rw [le_iff_rank, rank?, rank?, hx, hy, ← hrank]
  constructor
  · rintro ⟨_, _, ⟨⟩, ⟨⟩, hle⟩
    exact hle
  · exact fun hle => ⟨_, _, rfl, rfl, hle⟩

/-- Doubles are in the order of the decimals that are written for them. -/
theorem le_abs_iff {x y : Float} {sign : Sign} {m n : ℕ} {p q : ℤ}
    {hm : 0 < m} {hn : 0 < n}
    (hx : x.toModel.unpack = .finite sign m p hm)
    (hy : y.toModel.unpack = .finite .positive n q hn) :
    y ≤ x.abs ↔ (shortest y).value ≤ (shortest x).value := by
  have hnear := (shortest_spec hx).2
  have hlimit := (shortest_spec hy).2
  rw [le_iff_lex hy (unpack_abs hx)]
  constructor
  · rintro (hlt | ⟨rfl, hle⟩)
    · exact hlimit.le_of_lex hnear (.inl hlt)
    · rcases hle.lt_or_eq with hlt | rfl
      · exact hlimit.le_of_lex hnear (.inr ⟨rfl, hlt⟩)
      · rw [shortest_eq hx, shortest_eq hy]
  · intro hle
    by_contra hlex
    exact (hnear.lt_of_lex hlimit (by omega)).not_ge hle

/-! ## The two limits -/

section Limits

variable {x limit : Float} {sign : Sign} {mantissa n : ℕ} {power q : ℤ}
variable {hpos : 0 < mantissa} {hn : 0 < n} {exponent : ℤ}

/-- A double that is written as a power of ten is a limit of the doubles whose
point is above that power. -/
theorem le_abs_iff_point (hx : x.toModel.unpack = .finite sign mantissa power hpos)
    (hlimit : limit.toModel.unpack = .finite .positive n q hn)
    (hshortest : shortest limit = ⟨['1'], exponent + 1⟩) :
    limit ≤ x.abs ↔ exponent < (shortest x).point := by
  have hvalue : (shortest limit).value = 10 ^ exponent := by
    rw [hshortest, Expansion.value, List.length_singleton, Nat.cast_one,
      add_sub_cancel_right, show numeralValue ['1'] = 1 from rfl, Nat.cast_one,
      one_mul]
  rw [le_abs_iff hx hlimit, hvalue, (shortest_spec hx).1.pow_le_iff]

theorem sextillion_le_abs_iff
    (hx : x.toModel.unpack = .finite sign mantissa power hpos) :
    1e21 ≤ x.abs ↔ 21 < (shortest x).point := by
  have hlimit : (1e21 : Float).toModel.unpack =
      .finite .positive 7629394531250000 17 (by decide) := rfl
  apply le_abs_iff_point hx hlimit
  rw [shortest_eq hlimit]
  decide +kernel

theorem millionth_le_abs_iff
    (hx : x.toModel.unpack = .finite sign mantissa power hpos) :
    1e-6 ≤ x.abs ↔ -6 < (shortest x).point := by
  have hlimit : (1e-6 : Float).toModel.unpack =
      .finite .positive 4722366482869645 (-72) (by decide) := rfl
  apply le_abs_iff_point hx hlimit
  rw [shortest_eq hlimit]
  decide +kernel

theorem abs_lt_millionth_iff
    (hx : x.toModel.unpack = .finite sign mantissa power hpos) :
    x.abs < 1e-6 ↔ (shortest x).point ≤ -6 := by
  have hnan : x.abs.isNaN = false := by
    change x.abs.toModel.unpack.isNaN = false
    rw [unpack_abs hx]
    rfl
  rw [← not_lt, ← millionth_le_abs_iff hx]
  constructor
  · exact fun hlt hle => not_lt_of_le hle hlt
  · exact fun hnot => (lt_or_le hnan rfl).resolve_right hnot

end Limits

end NumberedBasic.Decimal
