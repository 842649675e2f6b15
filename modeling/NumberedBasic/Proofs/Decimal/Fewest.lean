import NumberedBasic.Proofs.Decimal.Shortest

/-!
# No decimal is shorter

The grids are tried from coarse to fine, so that no grid coarser than the one
that is found has a point in the interval.  A decimal of fewer digits would lie
on such a grid, or would have a power of ten between itself and the double.
-/

namespace NumberedBasic.Decimal

open Double Text

/-! ## The coarsest grid -/

namespace Interval

variable {interval : Interval}

theorem contains_between {a b c : ℕ} (ha : interval.contains a = true)
    (hb : interval.contains b = true) (hac : a ≤ c) (hcb : c ≤ b) :
    interval.contains c = true := by
  rw [contains] at *
  split_ifs at * <;>
    simp only [Bool.and_eq_true, decide_eq_true_eq] at * <;> omega

/-- A grid with a point in the interval has one next to the value too. -/
theorem exists_onGrid {grid units : ℕ} (hgrid : 0 < grid)
    (hvalue : interval.contains interval.value = true)
    (hunits : interval.contains (units * grid) = true) :
    ∃ found, interval.onGrid? grid = some found := by
  have hbelow := Nat.div_mul_le_self interval.value grid
  have habove : interval.value ≤ (interval.value / grid + 1) * grid :=
    (Nat.lt_mul_of_div_lt (Nat.lt_succ_self _) hgrid).le
  have hnext : interval.contains (interval.value / grid * grid) = true ∨
      interval.contains ((interval.value / grid + 1) * grid) = true := by
    rcases Nat.lt_or_ge (interval.value / grid) units with hlt | hge
    · exact .inr (contains_between hvalue hunits habove
        (Nat.mul_le_mul_right grid hlt))
    · exact .inl (contains_between hunits hvalue
        (Nat.mul_le_mul_right grid hge) hbelow)
  rw [onGrid?]
  split_ifs with hboth hnear hlow hhigh
  · exact ⟨_, rfl⟩
  · exact ⟨_, rfl⟩
  · exact ⟨_, rfl⟩
  · exact ⟨_, rfl⟩
  · exact absurd hnext (not_or.mpr ⟨hlow, hhigh⟩)

theorem onGrid_le {grid units : ℕ} (h : interval.onGrid? grid = some units) :
    units ≤ interval.value / grid + 1 := by
  rw [onGrid?] at h
  split_ifs at h <;> cases h <;> omega

theorem search_le (places : ℕ) :
    (interval.search places).1 ≤
        interval.value / 10 ^ (interval.search places).2 + 1 ∧
      (interval.search places).2 ≤ places := by
  induction places with
  | zero =>
      rw [search_zero, pow_zero, Nat.div_one]
      exact ⟨Nat.le_succ _, le_rfl⟩
  | succ places ih =>
      rw [search_succ]
      split
      case h_1 units hunits => exact ⟨onGrid_le hunits, le_rfl⟩
      case h_2 => exact ⟨ih.1, ih.2.trans (Nat.le_succ _)⟩

theorem search_coarsest {units exponent places : ℕ}
    (hvalue : interval.contains interval.value = true)
    (hunits : interval.contains (units * 10 ^ exponent) = true)
    (hplaces : exponent ≤ places) :
    exponent ≤ (interval.search places).2 := by
  induction places with
  | zero => exact hplaces.trans (Nat.zero_le _)
  | succ places ih =>
      rw [search_succ]
      split
      case h_1 => exact hplaces
      case h_2 hnone =>
        refine ih (Nat.le_of_lt_succ (lt_of_le_of_ne hplaces ?_))
        rintro rfl
        obtain ⟨found, hfound⟩ := exists_onGrid (by positivity) hvalue hunits
        rw [hnone] at hfound
        cases hfound

/-- A point in the interval on a grid that was not found is beyond the finest
grid that has one point only below the value, and the power of ten there is in
the interval too. -/
theorem contains_power {units exponent : ℕ}
    (hvalue : interval.contains interval.value = true) (hunits : 0 < units)
    (hinside : interval.contains (units * 10 ^ exponent) = true)
    (hcoarse : (interval.search ((digitsOf interval.value).length - 1)).2 <
      exponent) :
    interval.contains (10 ^ (digitsOf interval.value).length) = true ∧
      (digitsOf interval.value).length =
        1 + (interval.search ((digitsOf interval.value).length - 1)).2 := by
  obtain ⟨-, hplaces⟩ :=
    interval.search_le ((digitsOf interval.value).length - 1)
  have hhigh := lt_of_length_digitsOf interval.value
  have hsome := List.length_pos_iff.mpr (digitsOf_ne_nil interval.value)
  have hlong : (digitsOf interval.value).length ≤ exponent := by
    by_contra hshort
    have hfound := search_coarsest hvalue hinside
      (Nat.le_sub_one_of_lt (Nat.lt_of_not_le hshort))
    omega
  have hnext : interval.contains (10 ^ (digitsOf interval.value).length) = true := by
    refine contains_between hvalue hinside hhigh.le ?_
    calc 10 ^ (digitsOf interval.value).length ≤ 10 ^ exponent :=
          Nat.pow_le_pow_right (by decide) hlong
      _ ≤ units * 10 ^ exponent := Nat.le_mul_of_pos_left _ hunits
  have hten : 10 * 10 ^ ((digitsOf interval.value).length - 1) =
      10 ^ (digitsOf interval.value).length := by
    rw [← pow_succ', Nat.sub_add_cancel hsome]
  have hfound := search_coarsest hvalue (hten ▸ hnext) le_rfl
  exact ⟨hnext, by omega⟩

end Interval

/-! ## Numbers of digits -/

theorem dropTrailingZeros_pow (count : ℕ) :
    dropTrailingZeros (digitsOf (10 ^ count)) = ['1'] := by
  induction count with
  | zero => rfl
  | succ count ih =>
      have happend := Nat.toDigits_append_toDigits (b := 10) (n := 10 ^ count)
        (d := 0) (by decide) (by positivity) (by decide)
      have hdigits : digitsOf (10 ^ (count + 1)) = digitsOf (10 ^ count) ++ ['0'] := by
        rw [pow_succ', ← Nat.add_zero (10 * 10 ^ count)]
        exact happend.symm
      rw [hdigits, ← ih]
      simp [dropTrailingZeros]

theorem length_dropTrailingZeros_le {n count : ℕ} (hcount : 0 < count)
    (hn : n ≤ 10 ^ count) : (dropTrailingZeros (digitsOf n)).length ≤ count := by
  rcases hn.lt_or_eq with hlt | rfl
  · obtain ⟨zeros, hdigits⟩ := exists_dropTrailingZeros (digitsOf n)
    have hlength : (digitsOf n).length ≤ count :=
      (Nat.length_toDigits_le_iff (by decide) hcount).mpr hlt
    rw [hdigits, List.length_append] at hlength
    omega
  · rw [dropTrailingZeros_pow]
    exact hcount

/-! ## Shorter decimals -/

/-- What rounds to a positive magnitude has digits, and not only zeros. -/
theorem Expansion.digits_pos (number : Expansion) {mantissa : ℕ} {power : ℤ}
    (hpos : 0 < mantissa) (hnear : Attracts mantissa power number.value) :
    0 < numeralValue number.digits ∧ 0 < number.digits.length := by
  have hpositive : 0 < number.value :=
    (half_pos (zpow_two_pos (-1074))).trans (hnear.underflow_lt hpos)
  have hnumeral : 0 < numeralValue number.digits := by
    refine Nat.pos_of_ne_zero fun hzero => ?_
    rw [Expansion.value, hzero, Nat.cast_zero, zero_mul] at hpositive
    exact hpositive.false
  refine ⟨hnumeral, List.length_pos_iff.mpr fun hnone => ?_⟩
  rw [hnone] at hnumeral
  exact absurd hnumeral (by decide)

section Fewest

variable {mantissa : ℕ} {power : ℤ} {interval : Interval}
variable (hvalue : interval.contains interval.value = true)
variable (hcontains : ∀ n, interval.contains n = true ↔
  Attracts mantissa power (n / 10 ^ interval.scale))

include hvalue hcontains

/-- The digits that are kept are no more than `count` if there is a point of the
interval below `count` places of the grid: else the power of ten there would be
in the interval, on a coarser grid. -/
theorem Interval.length_shortest_le {count : ℕ} {v : ℚ} (hcount : 0 < count)
    (hnear : Attracts mantissa power v)
    (hv : v * 10 ^ interval.scale ≤ 10 ^ (count +
      (interval.search ((digitsOf interval.value).length - 1)).2)) :
    interval.shortest.digits.length ≤ count := by
  obtain ⟨hunits, -⟩ :=
    interval.search_le ((digitsOf interval.value).length - 1)
  have hcoarsest (exponent : ℕ)
      (hinside : interval.contains (1 * 10 ^ exponent) = true)
      (hplaces : exponent ≤ (digitsOf interval.value).length - 1) :=
    search_coarsest hvalue hinside hplaces
  apply length_dropTrailingZeros_le hcount
  generalize interval.search _ = found at *
  obtain ⟨units, places⟩ := found
  dsimp only at hunits hcoarsest hv ⊢
  by_contra hlong
  have hscale : (0 : ℚ) < 10 ^ interval.scale := by positivity
  have hpower : 10 ^ (count + places) ≤ interval.value := by
    rw [pow_add, ← Nat.le_div_iff_mul_le (by positivity)]
    omega
  have hinside : interval.contains (1 * 10 ^ (count + places)) = true := by
    rw [one_mul, hcontains]
    refine hnear.between ((hcontains _).mp hvalue) ?_ ?_
    · rw [le_div_iff₀ hscale, Nat.cast_pow]
      exact hv
    · exact (div_le_div_iff_of_pos_right hscale).mpr (by exact_mod_cast hpower)
  have hshort : count + places < (digitsOf interval.value).length :=
    (Nat.pow_lt_pow_iff_right (by decide)).mp
      (hpower.trans_lt (lt_of_length_digitsOf _))
  have hcoarse := hcoarsest (count + places) hinside (by omega)
  omega

/-- The digits that are kept are the fewest of a point in the interval. -/
theorem Interval.length_shortest_le_of_near {number : Expansion} (hpos : 0 < mantissa)
    (hnear : Attracts mantissa power number.value) :
    interval.shortest.digits.length ≤ number.digits.length := by
  have hscale : (0 : ℚ) < 10 ^ interval.scale := by positivity
  have hten : (10 : ℚ) ≠ 0 := by norm_num
  obtain ⟨hnumeral, hlength⟩ := number.digits_pos hpos hnear
  obtain ⟨exponent, hexponent⟩ : ∃ exponent : ℤ,
      exponent = number.point - number.digits.length + interval.scale := ⟨_, rfl⟩
  have hscaled : number.value * 10 ^ interval.scale =
      numeralValue number.digits * 10 ^ exponent := by
    rw [Expansion.value, mul_assoc, hexponent, zpow_add₀ hten, zpow_natCast]
  obtain ⟨places, hplaces⟩ : ∃ places,
      places = (interval.search ((digitsOf interval.value).length - 1)).2 :=
    ⟨_, rfl⟩
  rcases le_or_gt exponent places with hfine | hcoarse
  · apply Interval.length_shortest_le hvalue hcontains hlength hnear
    have hlt : (numeralValue number.digits : ℚ) ≤ 10 ^ number.digits.length := by
      exact_mod_cast (numeralValue_lt number.digits).le
    rw [hscaled, ← hplaces, pow_add, ← zpow_natCast 10 places]
    exact mul_le_mul hlt (zpow_le_zpow_right₀ (by norm_num) hfine)
      (by positivity) (by positivity)
  · -- the grid of the decimal was not tried, so that the next power of ten
    -- above the double is in the interval
    obtain ⟨k, rfl⟩ := Int.eq_ofNat_of_zero_le (hcoarse.le.trans' (by omega))
    have hinside : interval.contains
        (numeralValue number.digits * 10 ^ k) = true := by
      rw [zpow_natCast, ← eq_div_iff hscale.ne'] at hscaled
      rw [hcontains, Nat.cast_mul, Nat.cast_pow, Nat.cast_ofNat, ← hscaled]
      exact hnear
    obtain ⟨hnext, hplace⟩ := contains_power hvalue hnumeral hinside (by omega)
    have hone := length_shortest_le hvalue hcontains Nat.one_pos
      ((hcontains _).mp hnext) (by
        rw [div_mul_cancel₀ _ hscale.ne', ← hplace, Nat.cast_pow, Nat.cast_ofNat])
    exact hone.trans hlength

end Fewest

/-- No decimal of fewer digits rounds to a double. -/
theorem length_shortest_le {x : Float} {sign : Float.Model.UnpackedFloat.Sign}
    {mantissa : ℕ} {power : ℤ} {hpos : 0 < mantissa} {number : Expansion}
    (hx : x.toModel.unpack = .finite sign mantissa power hpos)
    (hnear : Attracts mantissa power number.value) :
    (shortest x).digits.length ≤ number.digits.length := by
  have hcanonical := (canonical_of_unpack hx).1
  rw [shortest_eq hx]
  exact Interval.length_shortest_le_of_near (contains_value hcanonical hpos)
    (contains_iff_attracts hcanonical hpos) hpos hnear

end NumberedBasic.Decimal
