import NumberedBasic.Decimal.Nearest
import NumberedBasic.Proofs.Text.Numeral
import NumberedBasic.Proofs.Value.Packing

/-!
# Reading gives the nearest double

What is read for a decimal is the double that the decimal rounds to: the
nearest one, of two the even one, zero for a decimal that is too small and
infinity for one that is too large.  The double is found along three ways, by
the size of the decimal, and each of them rounds the exact decimal once.
-/

namespace NumberedBasic.Decimal

open Double Float.Model UnpackedFloat

/-- `x` is what the number `v`, which is not negative, rounds to. -/
def RoundsTo (v : ℚ) (x : Float) : Prop :=
  match x.toModel.unpack with
  | .zero .positive => v ≤ underflow
  | .finite .positive mantissa power _ => Attracts mantissa power v
  | .infinity .positive => overflow ≤ v
  | _ => False

section Unpacked

variable {v : ℚ} {x y : Float}

theorem roundsTo_of_zero (hx : x.toModel.unpack = .zero .positive)
    (hv : v ≤ underflow) : RoundsTo v x := by
  rw [RoundsTo, hx]
  exact hv

theorem roundsTo_of_infinity (hx : x.toModel.unpack = .infinity .positive)
    (hv : overflow ≤ v) : RoundsTo v x := by
  rw [RoundsTo, hx]
  exact hv

theorem roundsTo_of_finite {mantissa : ℕ} {power : ℤ} {hpos : 0 < mantissa}
    (hx : x.toModel.unpack = .finite .positive mantissa power hpos)
    (hv : Attracts mantissa power v) : RoundsTo v x := by
  rw [RoundsTo, hx]
  exact hv

theorem RoundsTo.cases (h : RoundsTo v x) :
    x.toModel.unpack = .zero .positive ∧ v ≤ underflow ∨
      (∃ mantissa power hpos,
        x.toModel.unpack = .finite .positive mantissa power hpos ∧
          Attracts mantissa power v ∧ power ≤ 971) ∨
      x.toModel.unpack = .infinity .positive ∧ overflow ≤ v := by
  rw [RoundsTo] at h
  split at h
  case h_1 hx => exact .inl ⟨hx, h⟩
  case h_2 mantissa power hpos hx =>
    exact .inr (.inl ⟨_, _, hpos, hx, h, (canonical_of_unpack hx).2⟩)
  case h_3 hx => exact .inr (.inr ⟨hx, h⟩)
  case h_4 => exact h.elim

theorem underflow_lt_overflow : underflow < overflow :=
  attracts_overflow.underflow_lt (by decide)

/-- A number rounds to one double only. -/
theorem RoundsTo.unique (hx : RoundsTo v x) (hy : RoundsTo v y) : x = y := by
  have hends := underflow_lt_overflow
  apply eq_of_unpack_eq
  rcases hx.cases with ⟨hx, hsmall⟩ | ⟨m, p, hm, hx, hnear, hp⟩ | ⟨hx, hlarge⟩
  all_goals
    rcases hy.cases with
      ⟨hy, hsmall'⟩ | ⟨n, q, hn, hy, hnear', hq⟩ | ⟨hy, hlarge'⟩
  · rw [hx, hy]
  · exact absurd (hnear'.underflow_lt hn) hsmall.not_gt
  · exact absurd (hends.trans_le hlarge') hsmall.not_gt
  · exact absurd (hnear.underflow_lt hm) hsmall'.not_gt
  · obtain ⟨rfl, rfl⟩ := hnear.unique hnear'
    rw [hx, hy]
  · exact absurd (hnear.overflow_le_iff.mp hlarge') (by omega)
  · exact absurd (hends.trans_le hlarge) hsmall'.not_gt
  · exact absurd (hnear'.overflow_le_iff.mp hlarge) (by omega)
  · rw [hx, hy]

/-- Only what is too small rounds to zero. -/
theorem RoundsTo.beq_zero_iff (h : RoundsTo v x) :
    (x == 0) = true ↔ v ≤ underflow := by
  have hends := underflow_lt_overflow
  change UnpackedFloat.beq x.toModel.unpack (.zero .positive) = true ↔ _
  rcases h.cases with ⟨hx, hsmall⟩ | ⟨m, p, hm, hx, hnear, -⟩ | ⟨hx, hlarge⟩ <;>
    rw [hx]
  · exact iff_of_true rfl hsmall
  · exact iff_of_false Bool.false_ne_true (hnear.underflow_lt hm).not_ge
  · exact iff_of_false Bool.false_ne_true (hends.trans_le hlarge).not_ge

/-- A magnitude that is put together, and what is too large for it. -/
theorem roundsTo_pack {mantissa : ℕ} {power : ℤ} (hv : 0 ≤ v)
    (h : Attracts mantissa power v) :
    RoundsTo v (.ofModel (.pack (assemble .positive mantissa power))) := by
  rcases le_or_gt power 971 with hpower | hpower
  · have hunpack := unpack_pack_assemble .positive h.canonical hpower
    rcases Nat.eq_zero_or_pos mantissa with rfl | hpos
    · obtain rfl := h.canonical.normal.resolve_right (by decide)
      exact roundsTo_of_zero hunpack ((attracts_zero_iff hv).mp h)
    · rw [assemble, dif_neg hpos.ne'] at hunpack ⊢
      exact roundsTo_of_finite hunpack h
  · exact roundsTo_of_infinity (unpack_pack_overflow .positive h.canonical hpower)
      (h.overflow_le_iff.mpr hpower)

end Unpacked

/-! ## The short way: whole numbers and powers of ten that are doubles -/

/-- A whole number that has room in a mantissa is a magnitude. -/
theorem exists_canonical {n : ℕ} (hpos : 0 < n) (hn : n < 2 ^ 53) :
    ∃ mantissa power, Canonical mantissa power ∧ 2 ^ 52 ≤ mantissa ∧
      power ≤ 971 ∧ (mantissa : ℚ) * 2 ^ power = n := by
  have hbits : n.log2 < 53 := (Nat.log2_lt hpos.ne').mpr hn
  obtain ⟨shift, hshift⟩ : ∃ shift, shift + n.log2 = 52 :=
    ⟨52 - n.log2, by omega⟩
  have hlow : 2 ^ 52 ≤ n * 2 ^ shift := by
    calc 2 ^ 52 = 2 ^ n.log2 * 2 ^ shift := by
          rw [← pow_add, add_comm, hshift]
      _ ≤ n * 2 ^ shift := Nat.mul_le_mul_right _ (Nat.log2_self_le hpos.ne')
  have hhigh : n * 2 ^ shift < 2 ^ 53 := by
    calc n * 2 ^ shift < 2 ^ (n.log2 + 1) * 2 ^ shift :=
          Nat.mul_lt_mul_of_pos_right Nat.lt_log2_self (Nat.two_pow_pos shift)
      _ = 2 ^ 53 := by
        rw [← pow_add, add_right_comm, add_comm n.log2, hshift]
  refine ⟨n * 2 ^ shift, -shift, ⟨hhigh, by omega, .inr hlow⟩, hlow, by omega,
    ?_⟩
  rw [zpow_neg, zpow_natCast, ← div_eq_mul_inv]
  push_cast
  exact mul_div_cancel_right₀ _ (pow_pos two_pos shift).ne'

theorem exists_unpack_toFloat {n : ℕ} (hpos : 0 < n) (hn : n < 2 ^ 53) :
    ∃ mantissa power, ∃ h : 0 < mantissa,
      n.toUInt64.toFloat.toModel.unpack =
          .finite .positive mantissa power h ∧
        2 ^ 52 ≤ mantissa ∧ (mantissa : ℚ) * 2 ^ power = n := by
  obtain ⟨m, p, hcanonical, hnormal, hpower, hvalue⟩ := exists_canonical hpos hn
  obtain ⟨m', p', hnear, hround⟩ := attracts_round .positive hpos 0
  rw [zpow_zero, mul_one, ← hvalue] at hnear
  obtain ⟨rfl, rfl⟩ := hnear.unique (attracts_self hcanonical)
  have hnat : n.toUInt64.toNat = n :=
    Nat.mod_eq_of_lt (hn.trans (by decide))
  have hconverted : UnpackedFloat.ofUInt64 .binary64 n.toUInt64 =
      UnpackedFloat.round .binary64 .positive n 0 := by
    have hcompare : compare (n : ℤ) 0 = .gt := by
      rw [compare_gt_iff_gt]
      exact_mod_cast hpos
    rw [UnpackedFloat.ofUInt64, hnat, UnpackedFloat.ofNat, UnpackedFloat.ofInt,
      UnpackedFloat.normalize, hcompare]
    rfl
  have hunpack := unpack_pack_assemble .positive hcanonical hpower
  rw [← hround, ← hconverted] at hunpack
  refine ⟨m', p', by omega, hunpack.trans ?_, hnormal, hvalue⟩
  rw [hconverted, hround, assemble, dif_neg (by omega)]

/-- A double that is ten to the power of `e`. -/
def IsPowerOfTen (e : ℕ) : UnpackedFloat → Prop
  | .finite .positive mantissa power _ =>
      -52 ≤ power ∧ mantissa * 2 ^ (power + 52).toNat = 10 ^ e * 2 ^ 52
  | _ => False

instance (e : ℕ) (x : UnpackedFloat) : Decidable (IsPowerOfTen e x) := by
  unfold IsPowerOfTen
  split <;> infer_instance

theorem isPowerOfTen_table :
    ∀ e : Fin Float.exactlyRepresentablePowersOfTen.size,
      IsPowerOfTen e Float.exactlyRepresentablePowersOfTen[e].toModel.unpack := by
  decide

theorem IsPowerOfTen.exists {e : ℕ} {x : UnpackedFloat}
    (h : IsPowerOfTen e x) :
    ∃ mantissa power, ∃ hpos : 0 < mantissa,
      x = .finite .positive mantissa power hpos ∧
        (mantissa : ℚ) * 2 ^ power = 10 ^ e := by
  rcases x with _ | _ | _ | ⟨_ | _, mantissa, power, hpos⟩
  case finite.positive =>
    obtain ⟨hpower, hvalue⟩ := h
    obtain ⟨shift, rfl⟩ : ∃ shift : ℕ, power = shift + -52 :=
      ⟨(power + 52).toNat, by omega⟩
    rw [neg_add_cancel_right, Int.toNat_natCast] at hvalue
    have hvalue : (mantissa : ℚ) * 2 ^ shift = 10 ^ e * 2 ^ 52 := by
      exact_mod_cast hvalue
    refine ⟨_, _, hpos, rfl, ?_⟩
    rw [zpow_add₀ two_ne_zero, zpow_natCast, ← mul_assoc, hvalue, mul_assoc]
    norm_num
  all_goals exact h.elim

/-! ## Decimals of moderate size -/

theorem roundsTo_mul {x y : Float} {m n : ℕ} {p q : ℤ} {hm : 0 < m}
    {hn : 0 < n} (hx : x.toModel.unpack = .finite .positive m p hm)
    (hy : y.toModel.unpack = .finite .positive n q hn)
    (hbits : 2 ^ 52 ≤ m * n) : RoundsTo (m * 2 ^ p * (n * 2 ^ q)) (x * y) := by
  obtain ⟨mantissa, power, hnear, hmul⟩ := attracts_mul (p := p) (q := q) hm hn hbits
  have hproduct := roundsTo_pack (by positivity) hnear
  rw [← hmul, ← hx, ← hy] at hproduct
  exact hproduct

theorem roundsTo_div {x y : Float} {m n : ℕ} {p q : ℤ} {hm : 0 < m}
    {hn : 0 < n} (hx : x.toModel.unpack = .finite .positive m p hm)
    (hy : y.toModel.unpack = .finite .positive n q hn) :
    RoundsTo (m * 2 ^ p / (n * 2 ^ q)) (x / y) := by
  obtain ⟨mantissa, power, hnear, hdiv⟩ := attracts_div (p := p) (q := q) hm hn
  have hquotient := roundsTo_pack (by positivity) hnear
  rw [← hdiv, ← hx, ← hy] at hquotient
  exact hquotient

/-- The power of ten that the short way multiplies or divides by. -/
theorem exists_powerOfTen {m e : ℕ} (hshort : m < 2 ^ 53 ∧ e ≤ 22) :
    ∃ ten : Float, IsPowerOfTen e ten.toModel.unpack ∧
      ∀ negative, Float.ofScientific m negative e =
        if negative then m.toUInt64.toFloat / ten
        else m.toUInt64.toFloat * ten := by
  have hsize : Float.exactlyRepresentablePowersOfTen.size = 23 := rfl
  refine ⟨_, isPowerOfTen_table ⟨e, by omega⟩, fun negative => ?_⟩
  rw [Float.ofScientific, dif_pos hshort]
  rfl

/-- The long way multiplies by the exact power of ten. -/
theorem attracts_ofScientific {m e : ℕ} (hm : 0 < m) (he : e ≤ 2048) :
    ∃ mantissa power, Attracts mantissa power (m * 10 ^ e) ∧
      UnpackedFloat.ofScientific .binary64 m e =
        assemble .positive mantissa power := by
  have hpos : 0 < m <<< 53 := by
    rw [Nat.shiftLeft_eq]
    positivity
  have hbits : 2 ^ 52 ≤ (m <<< 53) * 10 ^ e := by
    calc 2 ^ 52 ≤ 1 * 2 ^ 53 * 1 := by decide
      _ ≤ m * 2 ^ 53 * 10 ^ e :=
        Nat.mul_le_mul (Nat.mul_le_mul_right _ hm) (Nat.pos_of_ne_zero (by simp))
      _ = (m <<< 53) * 10 ^ e := by rw [Nat.shiftLeft_eq]
  obtain ⟨mantissa, power, hnear, hmul⟩ := attracts_mul (p := -53) (q := 0) hpos
    (Nat.pow_pos (n := e) (by decide : 0 < 10)) hbits
  have hvalue : ((m <<< 53 : ℕ) : ℚ) * 2 ^ (-53 : ℤ) *
      ((10 ^ e : ℕ) * 2 ^ (0 : ℤ)) = m * 10 ^ e := by
    rw [Nat.shiftLeft_eq]
    push_cast
    norm_num
    ring
  rw [hvalue] at hnear
  refine ⟨mantissa, power, hnear, ?_⟩
  have hhigh : ¬((e : ℤ) > 2 ^ Format.binary64.exponentBits) := by
    change ¬((e : ℤ) > 2048)
    omega
  have hlow : ¬((e : ℤ) <
      -((2 ^ Format.binary64.exponentBits : ℤ) + m.log2)) := by
    change ¬((e : ℤ) < -(2048 + m.log2))
    omega
  rw [UnpackedFloat.ofScientific, dif_neg hm.ne', if_neg hhigh, if_neg hlow,
    if_pos (Int.natCast_nonneg e)]
  exact hmul

/-- The long way divides by the exact power of ten. -/
theorem attracts_ofScientific_neg {m e : ℕ} (hm : 0 < m) (hpos : 0 < e)
    (he : e ≤ 2048 + m.log2) :
    ∃ mantissa power, Attracts mantissa power (m / 10 ^ e) ∧
      UnpackedFloat.ofScientific .binary64 m (-e) =
        assemble .positive mantissa power := by
  obtain ⟨mantissa, power, hnear, hdiv⟩ := attracts_div (p := 0) (q := 0) hm
    (Nat.pow_pos (n := e) (by decide : 0 < 10))
  rw [zpow_zero, mul_one, mul_one, Nat.cast_pow, Nat.cast_ofNat] at hnear
  refine ⟨mantissa, power, hnear, ?_⟩
  have hhigh : ¬((-e : ℤ) > 2 ^ Format.binary64.exponentBits) := by
    change ¬((-e : ℤ) > 2048)
    omega
  have hlow : ¬((-e : ℤ) <
      -((2 ^ Format.binary64.exponentBits : ℤ) + m.log2)) := by
    change ¬((-e : ℤ) < -(2048 + m.log2))
    omega
  rw [UnpackedFloat.ofScientific, dif_neg hm.ne', if_neg hhigh, if_neg hlow,
    if_neg (by omega)]
  simp only [neg_neg, Int.toNat_natCast]
  exact hdiv

theorem roundsTo_ofScientific {m e : ℕ} (hm : 0 < m) (he : e ≤ 2048) :
    RoundsTo (m * 10 ^ e) (Float.ofScientific m false e) := by
  by_cases hshort : m < 2 ^ 53 ∧ e ≤ 22
  · obtain ⟨ten, hten, hproduct⟩ := exists_powerOfTen hshort
    obtain ⟨a, p, ha, hwhole, hnormal, hwholeValue⟩ :=
      exists_unpack_toFloat hm hshort.1
    obtain ⟨b, q, hb, hpower, hpowerValue⟩ := hten.exists
    rw [hproduct, ← hwholeValue, ← hpowerValue]
    exact roundsTo_mul hwhole hpower
      (hnormal.trans (Nat.le_mul_of_pos_right a hb))
  · obtain ⟨mantissa, power, hnear, hlong⟩ := attracts_ofScientific hm he
    rw [Float.ofScientific, dif_neg hshort]
    have hrounds := roundsTo_pack (by positivity) hnear
    rw [← hlong] at hrounds
    exact hrounds

theorem roundsTo_ofScientific_neg {m e : ℕ} (hm : 0 < m) (hpos : 0 < e)
    (he : e ≤ 2048 + m.log2) :
    RoundsTo (m / 10 ^ e) (Float.ofScientific m true e) := by
  by_cases hshort : m < 2 ^ 53 ∧ e ≤ 22
  · obtain ⟨ten, hten, hquotient⟩ := exists_powerOfTen hshort
    obtain ⟨a, p, ha, hwhole, hnormal, hwholeValue⟩ :=
      exists_unpack_toFloat hm hshort.1
    obtain ⟨b, q, hb, hpower, hpowerValue⟩ := hten.exists
    rw [hquotient, ← hwholeValue, ← hpowerValue]
    exact roundsTo_div hwhole hpower
  · obtain ⟨mantissa, power, hnear, hlong⟩ := attracts_ofScientific_neg hm hpos he
    rw [Float.ofScientific, dif_neg hshort]
    have hrounds := roundsTo_pack (by positivity) hnear
    rw [← hlong] at hrounds
    obtain ⟨e, rfl⟩ : ∃ k, e = k + 1 := ⟨e - 1, by omega⟩
    exact hrounds

/-! ## The ends of the range -/

theorem overflow_le_pow : overflow ≤ 10 ^ 310 := by
  have hnat : 2 ^ 53 * 2 ^ 971 ≤ 10 ^ 310 := by decide +kernel
  have hpos : (0 : ℚ) < 2 ^ 971 := pow_pos two_pos 971
  rw [overflow, show (971 : ℤ) = (971 : ℕ) from rfl, zpow_natCast]
  calc (2 ^ 53 - 1 / 2) * (2 : ℚ) ^ 971 ≤ 2 ^ 53 * 2 ^ 971 :=
        mul_le_mul_of_nonneg_right (by norm_num) hpos.le
    _ ≤ 10 ^ 310 := by exact_mod_cast hnat

theorem pow_le_underflow : (10 : ℚ) ^ (-331 : ℤ) ≤ underflow := by
  have hnat : 2 * 2 ^ 1074 ≤ 10 ^ 331 := by decide +kernel
  have hrat : (2 : ℚ) * 2 ^ 1074 ≤ 10 ^ 331 := by exact_mod_cast hnat
  have hpos : (0 : ℚ) < 2 ^ 1074 := pow_pos two_pos 1074
  rw [underflow, show (-1074 : ℤ) = -(1074 : ℕ) from rfl,
    show (-331 : ℤ) = -(331 : ℕ) from rfl, zpow_neg, zpow_neg, zpow_natCast,
    zpow_natCast, div_eq_inv_mul, ← mul_inv]
  exact inv_anti₀ (mul_pos two_pos hpos) hrat

theorem zpow_ten_pos (power : ℤ) : (0 : ℚ) < 10 ^ power :=
  zpow_pos (by norm_num) power

/-- The position of its leading digit bounds a decimal. -/
theorem decimal_bounds {mantissa : ℕ} (hpos : 0 < mantissa) (exponent : ℤ) :
    (10 : ℚ) ^ ((digitsOf mantissa).length + exponent - 1) ≤
        mantissa * 10 ^ exponent ∧
      (mantissa : ℚ) * 10 ^ exponent <
        10 ^ ((digitsOf mantissa).length + exponent) := by
  have hten : (10 : ℚ) ≠ 0 := by norm_num
  have hunit := zpow_ten_pos exponent
  have hlow : (10 : ℚ) ^ ((digitsOf mantissa).length - 1) ≤ mantissa := by
    exact_mod_cast le_of_length_digitsOf hpos
  have hhigh : (mantissa : ℚ) < 10 ^ (digitsOf mantissa).length := by
    exact_mod_cast lt_of_length_digitsOf mantissa
  have hlength : 0 < (digitsOf mantissa).length := Nat.length_toDigits_pos
  constructor
  · calc (10 : ℚ) ^ ((digitsOf mantissa).length + exponent - 1)
      _ = 10 ^ ((((digitsOf mantissa).length - 1 : ℕ) : ℤ) + exponent) := by
        congr 1
        omega
      _ = 10 ^ ((digitsOf mantissa).length - 1) * 10 ^ exponent := by
        rw [zpow_add₀ hten, zpow_natCast]
      _ ≤ mantissa * 10 ^ exponent := mul_le_mul_of_nonneg_right hlow hunit.le
  · rw [zpow_add₀ hten, zpow_natCast]
    exact mul_lt_mul_of_pos_right hhigh hunit

/-- A number has no more decimal digits than bits. -/
theorem length_digitsOf_le_log2 {n : ℕ} (hpos : 0 < n) :
    (digitsOf n).length ≤ n.log2 + 1 := by
  have hbits : 2 ^ ((digitsOf n).length - 1) ≤ n :=
    (Nat.pow_le_pow_left (by decide) _).trans (le_of_length_digitsOf hpos)
  have hlog := (Nat.le_log2 hpos.ne').mpr hbits
  omega

/-- Whatever its size, a decimal is read as the double that it rounds to. -/
theorem roundsTo_nearest (mantissa : ℕ) (exponent : ℤ) :
    RoundsTo (mantissa * 10 ^ exponent) (nearest mantissa exponent) := by
  rcases Nat.eq_zero_or_pos mantissa with rfl | hpos
  · rw [nearest, if_pos rfl, Nat.cast_zero, zero_mul]
    exact roundsTo_of_zero rfl (half_pos (zpow_two_pos (-1074))).le
  obtain ⟨hlow, hhigh⟩ := decimal_bounds hpos exponent
  rw [nearest, if_neg hpos.ne']
  dsimp only
  by_cases hlarge : 310 < ((digitsOf mantissa).length : ℤ) + exponent
  · rw [if_pos hlarge]
    refine roundsTo_of_infinity rfl (overflow_le_pow.trans (le_trans ?_ hlow))
    rw [← zpow_natCast]
    exact zpow_le_zpow_right₀ (by norm_num) (by push_cast; omega)
  rw [if_neg hlarge]
  by_cases hsmall : ((digitsOf mantissa).length : ℤ) + exponent < -330
  · rw [if_pos hsmall]
    refine roundsTo_of_zero rfl (le_trans (hhigh.le.trans ?_) pow_le_underflow)
    exact zpow_le_zpow_right₀ (by norm_num) (by omega)
  rw [if_neg hsmall]
  rcases lt_or_ge exponent 0 with hnegative | hnonneg
  · obtain ⟨e, rfl⟩ : ∃ e : ℕ, exponent = -e := ⟨exponent.natAbs, by omega⟩
    rw [if_pos hnegative, Int.natAbs_neg, Int.natAbs_natCast, zpow_neg,
      zpow_natCast, ← div_eq_mul_inv]
    have hbits := length_digitsOf_le_log2 hpos
    exact roundsTo_ofScientific_neg hpos (by omega) (by omega)
  · obtain ⟨e, rfl⟩ : ∃ e : ℕ, exponent = e := ⟨exponent.toNat, by omega⟩
    rw [if_neg hnonneg.not_gt, Int.natAbs_natCast, zpow_natCast]
    exact roundsTo_ofScientific hpos (by omega)

end NumberedBasic.Decimal
