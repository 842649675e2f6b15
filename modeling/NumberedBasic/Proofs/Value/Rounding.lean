import NumberedBasic.Proofs.Value.Magnitude

/-!
# Rounding of exact results

The arithmetic of doubles computes a mantissa and what the bits after it say,
shifts it to the scale of the result and rounds.  What comes out is the
magnitude that the exact result rounds to.
-/

namespace NumberedBasic.Double

open Float.Model UnpackedFloat

/-! ## Mantissas with the bits that were dropped -/

/-- What an accuracy says of the number that a mantissa stands for. -/
def Located (mantissa : ℕ) (x : ℚ) : Accuracy → Prop
  | .exact => x = mantissa
  | .inexact .lt => mantissa < x ∧ x < mantissa + 1 / 2
  | .inexact .eq => x = mantissa + 1 / 2
  | .inexact .gt => mantissa + 1 / 2 < x ∧ x < mantissa + 1

theorem Located.floor {mantissa : ℕ} {x : ℚ} {accuracy : Accuracy}
    (h : Located mantissa x accuracy) : mantissa ≤ x ∧ x < mantissa + 1 := by
  rcases accuracy with _ | (_ | _ | _) <;> simp only [Located] at h <;>
    constructor <;> linarith

theorem Located.roundsEven {mantissa : ℕ} {x : ℚ} {accuracy : Accuracy}
    (h : Located mantissa x accuracy) :
    RoundsEven x (accuracy.roundToNearestEven mantissa) := by
  rcases accuracy with _ | (_ | _ | _) <;>
    simp only [Located, Accuracy.roundToNearestEven] at h ⊢
  case exact =>
    refine ⟨?_, ?_, .inr ⟨?_, ?_⟩⟩ <;> linarith
  case inexact.lt =>
    refine ⟨?_, ?_, .inr ⟨?_, ?_⟩⟩ <;> linarith
  case inexact.eq =>
    rcases Nat.mod_two_eq_zero_or_one mantissa with hmod | hmod <;> rw [hmod]
    · refine ⟨?_, ?_, .inl ?_⟩
      · push_cast; linarith
      · push_cast; linarith
      · exact Nat.even_iff.mpr hmod
    · refine ⟨?_, ?_, .inl ?_⟩
      · push_cast; linarith
      · push_cast; linarith
      · rw [Nat.even_add_one, Nat.not_even_iff]
        exact hmod
  case inexact.gt =>
    refine ⟨?_, ?_, .inr ⟨?_, ?_⟩⟩ <;> push_cast <;> linarith

/-- What a mantissa and the two bits after it say of a number. -/
def Holds (extended : ExtendedMantissa) (x : ℚ) : Prop :=
  Located extended.mantissa x extended.accuracy

theorem Holds.shiftRightOne {extended : ExtendedMantissa} {x : ℚ}
    (h : Holds extended x) : Holds extended.shiftRightOne (x / 2) := by
  rcases extended with ⟨mantissa, roundBit, stickyBit⟩
  have hdivision : (2 : ℚ) * (mantissa / 2 : ℕ) + (mantissa % 2 : ℕ) =
      mantissa := by
    exact_mod_cast Nat.div_add_mod mantissa 2
  rcases Nat.mod_two_eq_zero_or_one mantissa with hmod | hmod <;>
    rw [hmod] at hdivision <;> push_cast at hdivision <;>
    cases roundBit <;> cases stickyBit <;>
    simp only [Holds, ExtendedMantissa.shiftRightOne,
      ExtendedMantissa.accuracy, Located, hmod, Bool.or_false, Bool.or_true,
      bne_self_eq_false, show ((1 : ℕ) != 0) = true from rfl] at h ⊢ <;>
    first | linarith | exact ⟨by linarith, by linarith⟩

theorem Holds.shiftRight {extended : ExtendedMantissa} {x : ℚ} (n : ℕ)
    (h : Holds extended x) : Holds (extended >>> n) (x / 2 ^ n) := by
  change Holds (n.repeat ExtendedMantissa.shiftRightOne extended) _
  induction n with
  | zero =>
      rw [pow_zero, div_one]
      exact h
  | succ n ih =>
      rw [pow_succ, ← div_div]
      exact ih.shiftRightOne

theorem Holds.roundsEven {extended : ExtendedMantissa} {x : ℚ}
    (h : Holds extended x) : RoundsEven x extended.roundedMantissa :=
  Located.roundsEven h

theorem holds_ofMantissaAndAccuracy {mantissa : ℕ} {x : ℚ}
    {accuracy : Accuracy} (h : Located mantissa x accuracy) :
    Holds (.ofMantissaAndAccuracy mantissa accuracy) x := by
  rcases accuracy with _ | (_ | _ | _) <;> exact h

/-! ## Shifting to the scale -/

theorem targetExponent_binary64 (total : ℤ) :
    Format.binary64.targetExponent total = max (total - 53) (-1074) :=
  rfl

/-- The scale is found from the leading bit of the mantissa. -/
theorem isScale_targetExponent {mantissa : ℕ} {exponent : ℤ}
    {accuracy : Accuracy} {v : ℚ}
    (h : Located mantissa (v / 2 ^ exponent) accuracy)
    (hexponent : exponent ≤
      Format.binary64.targetExponent (totalExponent mantissa exponent)) :
    IsScale v
      (Format.binary64.targetExponent (totalExponent mantissa exponent)) := by
  rw [targetExponent_binary64, totalExponent] at *
  obtain ⟨hlow, hhigh⟩ := h.floor
  rw [le_div_iff₀ (zpow_two_pos exponent)] at hlow
  rw [div_lt_iff₀ (zpow_two_pos exponent)] at hhigh
  refine ⟨?_, le_max_right _ _, ?_⟩
  · have hbits : mantissa + 1 ≤ 2 ^ (mantissa.log2 + 1) := Nat.lt_log2_self
    have hcast : ((mantissa : ℚ) + 1) ≤ 2 ^ (mantissa.log2 + 1) := by
      exact_mod_cast hbits
    calc v < (mantissa + 1) * 2 ^ exponent := hhigh
      _ ≤ 2 ^ (mantissa.log2 + 1) * 2 ^ exponent :=
        mul_le_mul_of_nonneg_right hcast (zpow_two_pos exponent).le
      _ = 2 ^ (exponent + (mantissa.log2 + 1 : ℕ)) :=
        (zpow_two_add _ _).symm
      _ ≤ _ := zpow_le_zpow_right₀ one_le_two (by push_cast; omega)
  · rcases le_or_gt (mantissa.log2 + 1 + exponent - 53 : ℤ) (-1074) with
      hleast | hgreater
    · exact .inl (max_eq_right hleast)
    · right
      have hne : mantissa ≠ 0 := by
        rintro rfl
        rw [show Nat.log2 0 = 0 from rfl] at *
        omega
      have hbits : (2 : ℚ) ^ mantissa.log2 ≤ mantissa := by
        exact_mod_cast Nat.log2_self_le hne
      rw [max_eq_left hgreater.le]
      calc (2 : ℚ) ^ (mantissa.log2 + 1 + exponent - 53 + 52 : ℤ)
        _ = 2 ^ (exponent + mantissa.log2) := by congr 1; omega
        _ = 2 ^ mantissa.log2 * 2 ^ exponent := zpow_two_add _ _
        _ ≤ mantissa * 2 ^ exponent :=
          mul_le_mul_of_nonneg_right hbits (zpow_two_pos exponent).le
        _ ≤ v := hlow

/-! ## Rounding -/

/-- A magnitude with a sign. -/
def assemble (sign : Sign) (mantissa : ℕ) (power : ℤ) : UnpackedFloat :=
  if h : mantissa = 0 then .zero sign
  else .finite sign mantissa power (Nat.pos_of_ne_zero h)

theorem shiftToTargetExponent_of_le {mantissa : ℕ} {exponent power : ℤ}
    {accuracy : Accuracy} (hpower : power =
      Format.binary64.targetExponent (totalExponent mantissa exponent))
    (hle : exponent ≤ power) :
    shiftToTargetExponent .binary64 mantissa exponent accuracy =
      (ExtendedMantissa.ofMantissaAndAccuracy mantissa accuracy >>>
        (power - exponent).toNat, power) := by
  rw [shiftToTargetExponent, shiftToExponent, ← hpower]
  simp only [Int.toNat_of_nonneg (sub_nonneg.mpr hle), add_sub_cancel]

/-- The second shift has nothing to do unless the rounding carried. -/
theorem shiftToTargetExponent_rounded {n : ℕ} {power : ℤ}
    (hn : n < 2 ^ 53) (hleast : -1074 ≤ power) :
    shiftToTargetExponent .binary64 n power .exact =
      (⟨n, false, false⟩, power) := by
  have hbits : n.log2 < 53 := by
    rcases Nat.eq_zero_or_pos n with rfl | hpos
    · decide
    · exact (Nat.log2_lt hpos.ne').mpr hn
  have hnone : (Format.binary64.targetExponent (totalExponent n power) -
      power).toNat = 0 := by
    rw [targetExponent_binary64, totalExponent]
    omega
  rw [shiftToTargetExponent, shiftToExponent, hnone]
  simp only [Nat.cast_zero, add_zero]
  rfl

theorem shiftToTargetExponent_carry {power : ℤ} (hleast : -1074 ≤ power) :
    shiftToTargetExponent .binary64 (2 ^ 53) power .exact =
      (⟨2 ^ 52, false, false⟩, power + 1) := by
  have htarget : power + 1 =
      Format.binary64.targetExponent (totalExponent (2 ^ 53) power) := by
    rw [targetExponent_binary64, totalExponent, Nat.log2_two_pow]
    omega
  rw [shiftToTargetExponent_of_le htarget (by omega), add_sub_cancel_left]
  rfl

theorem roundWithAccuracy_eq (sign : Sign) {mantissa : ℕ} {exponent power : ℤ}
    {accuracy : Accuracy} (hpower : power =
      Format.binary64.targetExponent (totalExponent mantissa exponent))
    (hle : exponent ≤ power) :
    roundWithAccuracy .binary64 sign mantissa exponent accuracy =
      let rounded := (ExtendedMantissa.ofMantissaAndAccuracy mantissa accuracy
        >>> (power - exponent).toNat).roundedMantissa
      let (shifted, power) :=
        shiftToTargetExponent .binary64 rounded power .exact
      assemble sign shifted.mantissa power := by
  rw [roundWithAccuracy, shiftToTargetExponent_of_le hpower hle]
  rfl

/-- Rounding with an accuracy gives a magnitude that the exact number rounds
to. -/
theorem attracts_roundWithAccuracy (sign : Sign) {mantissa : ℕ} {exponent : ℤ}
    {accuracy : Accuracy} {v : ℚ}
    (h : Located mantissa (v / 2 ^ exponent) accuracy)
    (hexponent : exponent ≤
      Format.binary64.targetExponent (totalExponent mantissa exponent)) :
    ∃ m p, Attracts m p v ∧
      roundWithAccuracy .binary64 sign mantissa exponent accuracy =
        assemble sign m p := by
  have hscale := isScale_targetExponent h hexponent
  obtain ⟨power, hpower⟩ : ∃ power, power =
    Format.binary64.targetExponent (totalExponent mantissa exponent) := ⟨_, rfl⟩
  rw [← hpower] at hscale hexponent
  obtain ⟨shift, rfl⟩ := Int.le.dest hexponent
  have hround := ((holds_ofMantissaAndAccuracy h).shiftRight shift).roundsEven
  rw [div_div, mul_comm, ← zpow_two_add] at hround
  rw [roundWithAccuracy_eq sign hpower hexponent, add_sub_cancel_left,
    Int.toNat_natCast]
  dsimp only
  rcases attracts_of_roundsEven hscale hround with
    ⟨hlt, hattracts⟩ | ⟨hcarry, hattracts⟩
  · rw [shiftToTargetExponent_rounded hlt hscale.least]
    exact ⟨_, _, hattracts, rfl⟩
  · rw [hcarry, shiftToTargetExponent_carry hscale.least]
    exact ⟨_, _, hattracts, rfl⟩

theorem log2_mul_two_pow {mantissa : ℕ} (hpos : 0 < mantissa) (shift : ℕ) :
    (mantissa * 2 ^ shift).log2 = mantissa.log2 + shift := by
  have hne : mantissa * 2 ^ shift ≠ 0 := by positivity
  rw [Nat.log2_eq_iff hne, add_right_comm, pow_add, pow_add]
  exact ⟨Nat.mul_le_mul_right _ (Nat.log2_self_le hpos.ne'),
    Nat.mul_lt_mul_of_pos_right Nat.lt_log2_self (by positivity)⟩

/-- Rounding an exact mantissa, whatever its size. -/
theorem attracts_round (sign : Sign) {mantissa : ℕ} (hpos : 0 < mantissa)
    (exponent : ℤ) :
    ∃ m p, Attracts m p (mantissa * 2 ^ exponent) ∧
      UnpackedFloat.round .binary64 sign mantissa exponent =
        assemble sign m p := by
  obtain ⟨shift, hshift⟩ : ∃ shift, shift = (exponent -
    Format.binary64.targetExponent (totalExponent mantissa exponent)).toNat :=
      ⟨_, rfl⟩
  have hround : UnpackedFloat.round .binary64 sign mantissa exponent =
      roundWithAccuracy .binary64 sign (mantissa * 2 ^ shift)
        (exponent - shift) .exact := by
    rw [← Nat.shiftLeft_eq, hshift]
    rfl
  rw [hround]
  apply attracts_roundWithAccuracy
  · rw [Located, div_eq_iff (zpow_two_pos _).ne', Nat.cast_mul, Nat.cast_pow,
      Nat.cast_ofNat, mul_assoc, ← zpow_two_add, sub_add_cancel]
  · rw [targetExponent_binary64, totalExponent] at *
    rw [log2_mul_two_pow hpos]
    omega

/-! ## Products and quotients -/

theorem attracts_mul {m n : ℕ} {p q : ℤ} (hm : 0 < m) (hn : 0 < n)
    (hbits : 2 ^ 52 ≤ m * n) :
    ∃ mantissa power, Attracts mantissa power (m * 2 ^ p * (n * 2 ^ q)) ∧
      UnpackedFloat.mul .binary64 (.finite .positive m p hm)
        (.finite .positive n q hn) = assemble .positive mantissa power := by
  change ∃ mantissa power, _ ∧
    roundWithAccuracy .binary64 .positive (m * n) (p + q) .exact = _
  apply attracts_roundWithAccuracy
  · rw [Located, div_eq_iff (zpow_two_pos _).ne', zpow_add₀ two_ne_zero]
    push_cast
    ring
  · have hlog : 52 ≤ (m * n).log2 := (Nat.le_log2 (by omega)).mpr hbits
    rw [targetExponent_binary64, totalExponent]
    omega

theorem located_quotient (m : ℕ) {n : ℕ} (hn : 0 < n) :
    Located (m / n) ((m : ℚ) / n) (accuracyOfFraction (m % n) n) := by
  have hpos : (0 : ℚ) < n := by exact_mod_cast hn
  have hdivision : (n : ℚ) * (m / n : ℕ) + (m % n : ℕ) = m := by
    exact_mod_cast Nat.div_add_mod m n
  have hrest : ((m % n : ℕ) : ℚ) < n := by exact_mod_cast Nat.mod_lt m hn
  rw [accuracyOfFraction]
  split_ifs with hexact
  · rw [hexact] at hdivision
    rw [Located, div_eq_iff hpos.ne']
    push_cast at hdivision
    linarith
  · have hmore : (0 : ℚ) < (m % n : ℕ) := by
      exact_mod_cast Nat.pos_of_ne_zero hexact
    rcases hcompare : compare (2 * (m % n)) n with _ | _ | _
    · rw [compare_lt_iff_lt] at hcompare
      have hcompare : (2 : ℚ) * (m % n : ℕ) < n := by exact_mod_cast hcompare
      rw [Located, lt_div_iff₀ hpos, div_lt_iff₀ hpos]
      constructor <;> linarith
    · rw [compare_eq_iff_eq] at hcompare
      have hcompare : (2 : ℚ) * (m % n : ℕ) = n := by exact_mod_cast hcompare
      rw [Located, div_eq_iff hpos.ne']
      linarith
    · rw [compare_gt_iff_gt] at hcompare
      have hcompare : (n : ℚ) < 2 * (m % n : ℕ) := by exact_mod_cast hcompare
      rw [Located, lt_div_iff₀ hpos, div_lt_iff₀ hpos]
      constructor <;> linarith

/-- A quotient has as many bits as the leading bits of its parts tell, but for
one. -/
theorem log2_le_quotient {m n : ℕ} (hm : 0 < m) (hn : 0 < n) :
    m.log2 ≤ (m / n).log2 + 1 + n.log2 := by
  rcases le_or_gt m.log2 n.log2 with hle | hgt
  · omega
  · have hdivisor : n < 2 ^ (n.log2 + 1) := Nat.lt_log2_self
    have hdividend : 2 ^ m.log2 ≤ m := Nat.log2_self_le hm.ne'
    have hquotient : 2 ^ (m.log2 - n.log2 - 1) ≤ m / n := by
      rw [Nat.le_div_iff_mul_le hn]
      calc 2 ^ (m.log2 - n.log2 - 1) * n
        _ ≤ 2 ^ (m.log2 - n.log2 - 1) * 2 ^ (n.log2 + 1) :=
          Nat.mul_le_mul_left _ hdivisor.le
        _ = 2 ^ m.log2 := by
          rw [← pow_add]
          congr 1
          omega
        _ ≤ m := hdividend
    have hpos : m / n ≠ 0 := by
      have := Nat.two_pow_pos (m.log2 - n.log2 - 1)
      omega
    have hbits := (Nat.le_log2 hpos).mpr hquotient
    omega

theorem attracts_div {m n : ℕ} {p q : ℤ} (hm : 0 < m) (hn : 0 < n) :
    ∃ mantissa power, Attracts mantissa power (m * 2 ^ p / (n * 2 ^ q)) ∧
      UnpackedFloat.div .binary64 (.finite .positive m p hm)
        (.finite .positive n q hn) = assemble .positive mantissa power := by
  obtain ⟨target, htarget⟩ : ∃ target, target = min (p - q)
    (Format.binary64.targetExponent (totalExponent m p - totalExponent n q)) :=
      ⟨_, rfl⟩
  obtain ⟨shift, hshift⟩ : ∃ shift : ℕ, p - q = target + shift :=
    ⟨(p - q - target).toNat, by omega⟩
  have hdiv : UnpackedFloat.div .binary64 (.finite .positive m p hm)
      (.finite .positive n q hn) =
        roundWithAccuracy .binary64 .positive (m * 2 ^ shift / n) target
          (accuracyOfFraction (m * 2 ^ shift % n) n) := by
    have hamount : (p - q - target).toNat = shift := by omega
    rw [← Nat.shiftLeft_eq, ← hamount, htarget]
    rfl
  rw [hdiv]
  apply attracts_roundWithAccuracy
  · have hquotient : (m : ℚ) * 2 ^ p / (n * 2 ^ q) / 2 ^ target =
        ((m * 2 ^ shift : ℕ) : ℚ) / n := by
      have hp : p = target + shift + q := by omega
      have htwo := zpow_two_pos
      rw [hp, zpow_add₀ two_ne_zero, zpow_add₀ two_ne_zero, zpow_natCast]
      push_cast
      have h1 := (htwo target).ne'
      have h2 := (htwo q).ne'
      field_simp
    rw [hquotient]
    exact located_quotient _ hn
  · have hlog := log2_le_quotient (m := m * 2 ^ shift) (by positivity) hn
    rw [log2_mul_two_pow hm] at hlog
    rw [targetExponent_binary64, totalExponent, totalExponent] at htarget
    rw [targetExponent_binary64, totalExponent]
    omega

end NumberedBasic.Double
