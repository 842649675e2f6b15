import NumberedBasic.Decimal.Shortest
import NumberedBasic.Proofs.Decimal.Nearest
import NumberedBasic.Proofs.Text.Trim

/-!
# Decimals that read back

The digits that are kept of a double denote a decimal among the reals that
round to the double.  They are decimal digits, neither the first nor the last
of which is a zero.
-/

namespace NumberedBasic.Decimal

open Double Text

/-- The number that an expansion denotes. -/
def Expansion.value (number : Expansion) : ℚ :=
  numeralValue number.digits * 10 ^ (number.point - number.digits.length)

/-- Decimal digits that do not start with a zero. -/
structure Leading (digits : List Char) : Prop where
  nonempty : digits ≠ []
  ascii : ∀ c ∈ digits, c.isDigit = true
  first : digits.head? ≠ some '0'

/-- Decimal digits that do not end with a zero. -/
structure Trailing (digits : List Char) : Prop where
  nonempty : digits ≠ []
  ascii : ∀ c ∈ digits, c.isDigit = true
  last : digits.getLast? ≠ some '0'

/-- Decimal digits without a zero at either end. -/
structure Expansion.Reduced (number : Expansion) : Prop where
  leading : Leading number.digits
  trailing : Trailing number.digits

/-! ## The interval of a magnitude -/

section Interval

variable {mantissa : ℕ} {power : ℤ}

/-- A magnitude, and whether the gap below it is the smaller one. -/
def magnitudeOf (mantissa : ℕ) (power : ℤ) : Binary :=
  ⟨mantissa, power, decide (mantissa = 2 ^ 52 ∧ -1074 < power)⟩

/-- A quarter of the gap above a magnitude is a whole multiple of the power of
ten in which the interval is given. -/
theorem exists_quarter (mantissa : ℕ) (power : ℤ) :
    ∃ quarter : ℕ,
      (magnitudeOf mantissa power).interval =
          { low := (4 * mantissa -
              if mantissa = 2 ^ 52 ∧ -1074 < power then 1 else 2) * quarter
            value := 4 * mantissa * quarter
            high := (4 * mantissa + 2) * quarter
            closed := mantissa % 2 = 0
            scale := (2 - power).toNat } ∧
        (quarter : ℚ) = 2 ^ (power - 2) * 10 ^ (2 - power).toNat := by
  have hscale : -(power - 2) = 2 - power := by omega
  refine ⟨if 0 ≤ power - 2 then Nat.pow 2 (power - 2).toNat
    else Nat.pow 5 (2 - power).toNat, ?_, ?_⟩
  · rw [magnitudeOf, Binary.interval]
    simp only [decide_eq_true_eq, hscale]
  · split_ifs with hquarter
    · obtain ⟨k, hk⟩ := Int.eq_ofNat_of_zero_le hquarter
      have hnone : (2 - power).toNat = 0 := by omega
      rw [hnone, hk, pow_zero, mul_one, zpow_natCast]
      norm_cast
    · obtain ⟨k, hk⟩ : ∃ k : ℕ, 2 - power = k := ⟨(2 - power).toNat, by omega⟩
      have hten : (10 : ℚ) ^ k = 2 ^ k * 5 ^ k := by
        rw [← mul_pow]
        norm_num
      have htwo : (2 : ℚ) ^ k ≠ 0 := pow_ne_zero k two_ne_zero
      have hpower : power - 2 = -k := by omega
      rw [hk, hpower, Int.toNat_natCast, zpow_neg, zpow_natCast, hten,
        inv_mul_cancel_left₀ htwo]
      norm_cast

/-- The interval and the magnitude itself, multiplied by a power of ten. -/
theorem interval_eq (power : ℤ) (hpos : 0 < mantissa) :
    ((magnitudeOf mantissa power).interval.low : ℚ) =
        lowEnd mantissa power * 2 ^ power *
          10 ^ (magnitudeOf mantissa power).interval.scale ∧
      ((magnitudeOf mantissa power).interval.value : ℚ) =
        mantissa * 2 ^ power *
          10 ^ (magnitudeOf mantissa power).interval.scale ∧
      ((magnitudeOf mantissa power).interval.high : ℚ) =
        (mantissa + 1 / 2) * 2 ^ power *
          10 ^ (magnitudeOf mantissa power).interval.scale := by
  obtain ⟨quarter, hinterval, hquarter⟩ := exists_quarter mantissa power
  have hunit : (2 : ℚ) ^ power = 4 * 2 ^ (power - 2) := by
    have hsplit := zpow_two_add (power - 2) 2
    norm_num at hsplit
    exact hsplit
  have hlow : ((4 * mantissa - if mantissa = 2 ^ 52 ∧ -1074 < power then 1
      else 2 : ℕ) : ℚ) = 4 * lowEnd mantissa power := by
    rw [lowEnd]
    split_ifs
    · rw [Nat.cast_sub (by omega)]
      push_cast
      ring
    · rw [Nat.cast_sub (by omega)]
      push_cast
      ring
  rw [hinterval]
  simp only [Nat.cast_mul, hquarter, hlow, hunit]
  refine ⟨by ring, ?_, ?_⟩
  · push_cast
    ring
  · push_cast
    ring

theorem contains_iff (hpos : 0 < mantissa) (candidate : ℕ) :
    (magnitudeOf mantissa power).interval.contains candidate = true ↔
      Between (Even mantissa) (lowEnd mantissa power * 2 ^ power)
        ((mantissa + 1 / 2) * 2 ^ power)
        (candidate / 10 ^ (magnitudeOf mantissa power).interval.scale) := by
  obtain ⟨hlow, -, hhigh⟩ := interval_eq power hpos
  have hclosed : (magnitudeOf mantissa power).interval.closed =
      decide (mantissa % 2 = 0) := rfl
  have hscale : (0 : ℚ) <
      10 ^ (magnitudeOf mantissa power).interval.scale := by positivity
  rw [← between_mul_iff hscale, div_mul_cancel₀ _ hscale.ne', ← hlow, ← hhigh,
    Interval.contains, hclosed, Nat.even_iff]
  generalize (magnitudeOf mantissa power).interval.low = low
  generalize (magnitudeOf mantissa power).interval.high = high
  by_cases heven : mantissa % 2 = 0
  · simp only [heven, decide_true, if_true, Bool.and_eq_true,
      decide_eq_true_eq]
    constructor
    · rintro ⟨hlow, hhigh⟩
      exact ⟨by exact_mod_cast hlow, by exact_mod_cast hhigh, .inl trivial⟩
    · rintro ⟨hlow, hhigh, -⟩
      exact ⟨by exact_mod_cast hlow, by exact_mod_cast hhigh⟩
  · simp only [heven, decide_false, Bool.false_eq_true, if_false,
      Bool.and_eq_true, decide_eq_true_eq]
    constructor
    · rintro ⟨hlow, hhigh⟩
      have hlow : (low : ℚ) < candidate := by exact_mod_cast hlow
      have hhigh : (candidate : ℚ) < high := by exact_mod_cast hhigh
      exact ⟨hlow.le, hhigh.le, .inr ⟨hlow, hhigh⟩⟩
    · rintro ⟨-, -, hinside⟩
      obtain ⟨hlow, hhigh⟩ := hinside.resolve_left id
      exact ⟨by exact_mod_cast hlow, by exact_mod_cast hhigh⟩

/-- The interval holds what rounds to the magnitude. -/
theorem contains_iff_attracts (hcanonical : Canonical mantissa power)
    (hpos : 0 < mantissa) (candidate : ℕ) :
    (magnitudeOf mantissa power).interval.contains candidate = true ↔
      Attracts mantissa power
        (candidate / 10 ^ (magnitudeOf mantissa power).interval.scale) := by
  rw [contains_iff hpos]
  exact ⟨fun hnear => ⟨hcanonical, hnear⟩, fun hattracts => hattracts.near⟩

theorem contains_value (hcanonical : Canonical mantissa power)
    (hpos : 0 < mantissa) :
    (magnitudeOf mantissa power).interval.contains
      (magnitudeOf mantissa power).interval.value = true := by
  obtain ⟨-, hvalue, -⟩ := interval_eq power hpos
  rw [contains_iff_attracts hcanonical hpos, hvalue,
    mul_div_cancel_right₀ _ (by positivity)]
  exact attracts_self hcanonical

end Interval

/-! ## The search for a coarse grid -/

/-- What is found on a grid is in the interval. -/
theorem Interval.contains_of_onGrid {interval : Interval} {grid units : ℕ}
    (h : interval.onGrid? grid = some units) :
    interval.contains (units * grid) = true := by
  rw [Interval.onGrid?] at h
  split_ifs at h with hboth hnear hlow hhigh
  · cases h
    exact (Bool.and_eq_true_iff.mp hboth).1
  · cases h
    exact (Bool.and_eq_true_iff.mp hboth).2
  · cases h
    exact hlow
  · cases h
    exact hhigh

theorem Interval.search_zero (interval : Interval) :
    interval.search 0 = (interval.value, 0) := rfl

theorem Interval.search_succ (interval : Interval) (places : ℕ) :
    interval.search (places + 1) =
      match interval.onGrid? (10 ^ (places + 1)) with
      | some units => (units, places + 1)
      | none => interval.search places := rfl

theorem Interval.contains_search {interval : Interval}
    (hvalue : interval.contains interval.value = true) (places : ℕ) :
    interval.contains ((interval.search places).1 *
      10 ^ (interval.search places).2) = true := by
  induction places with
  | zero =>
      rw [search_zero, pow_zero, mul_one]
      exact hvalue
  | succ places ih =>
      rw [search_succ]
      split
      case h_1 units hunits => exact contains_of_onGrid hunits
      case h_2 => exact ih

/-! ## Zeros at the ends -/

theorem exists_dropTrailingZeros (digits : List Char) :
    ∃ count, digits = dropTrailingZeros digits ++ List.replicate count '0' := by
  have hzeros : (digits.reverse.takeWhile (· = '0')).reverse =
      List.replicate (digits.reverse.takeWhile (· = '0')).reverse.length '0' := by
    refine List.eq_replicate_of_mem fun c hc => ?_
    rw [List.mem_reverse] at hc
    exact of_decide_eq_true (List.all_eq_true.mp List.all_takeWhile c hc)
  refine ⟨(digits.reverse.takeWhile (· = '0')).reverse.length, ?_⟩
  rw [← hzeros, dropTrailingZeros, ← List.reverse_append,
    List.takeWhile_append_dropWhile, List.reverse_reverse]

theorem getLast_dropTrailingZeros (digits : List Char) :
    (dropTrailingZeros digits).getLast? ≠ some '0' := by
  rw [dropTrailingZeros, List.getLast?_reverse]
  intro hlast
  have hhead := Text.head_dropWhile (· = '0') digits.reverse '0' hlast
  exact absurd hhead (by decide)

/-- The digits of a positive number do not start with a zero. -/
theorem leading_digitsOf {n : ℕ} (hn : 0 < n) : Leading (digitsOf n) := by
  refine ⟨digitsOf_ne_nil n, fun _ => isDigit_of_mem_digitsOf, fun hzero => ?_⟩
  obtain ⟨digits, hdigits⟩ := List.head?_eq_some_iff.mp hzero
  have hlow := le_of_length_digitsOf hn
  have hvalue := numeralValue_digitsOf n
  have hhigh := numeralValue_lt digits
  rw [hdigits, List.length_cons, Nat.add_sub_cancel] at hlow
  rw [hdigits, ← List.singleton_append, numeralValue_append,
    show numeralValue ['0'] = 0 from rfl, Nat.zero_mul, Nat.zero_add] at hvalue
  omega

/-- The digits of a positive number without the zeros at their end. -/
theorem reduced_digitsOf {units : ℕ} (hunits : 0 < units) (point : ℤ) :
    Expansion.Reduced ⟨dropTrailingZeros (digitsOf units), point⟩ := by
  obtain ⟨count, hdigits⟩ := exists_dropTrailingZeros (digitsOf units)
  have hnonempty : dropTrailingZeros (digitsOf units) ≠ [] := by
    intro hnone
    have hvalue := numeralValue_digitsOf units
    rw [hdigits, hnone, List.nil_append, numeralValue_zeros] at hvalue
    omega
  have hascii : ∀ c ∈ dropTrailingZeros (digitsOf units), c.isDigit = true := by
    intro c hc
    apply isDigit_of_mem_digitsOf (n := units)
    rw [hdigits]
    exact List.mem_append_left _ hc
  refine ⟨⟨hnonempty, hascii, fun hzero => ?_⟩,
    ⟨hnonempty, hascii, getLast_dropTrailingZeros _⟩⟩
  apply (leading_digitsOf hunits).first
  rw [hdigits, List.head?_append_of_ne_nil _ hnonempty]
  exact hzero

/-! ## The digits of a double -/

/-- The digits that are kept denote what was found on the grid. -/
theorem value_shortest (interval : Interval) :
    interval.shortest.value =
      ((interval.search ((digitsOf interval.value).length - 1)).1 *
        10 ^ (interval.search ((digitsOf interval.value).length - 1)).2 : ℕ) /
          10 ^ interval.scale := by
  rw [Interval.shortest]
  generalize interval.search _ = found
  obtain ⟨units, places⟩ := found
  obtain ⟨count, hdigits⟩ := exists_dropTrailingZeros (digitsOf units)
  have hvalue := numeralValue_digitsOf units
  have hlength := congrArg List.length hdigits
  rw [List.length_append, List.length_replicate] at hlength
  rw [hdigits, numeralValue_append, numeralValue_zeros, List.length_replicate,
    Nat.add_zero] at hvalue
  generalize dropTrailingZeros (digitsOf units) = kept at *
  have hten : (10 : ℚ) ≠ 0 := by norm_num
  have hexponent : ((digitsOf units).length : ℤ) + places - interval.scale -
      kept.length = count + places - interval.scale := by omega
  rw [Expansion.value]
  dsimp only
  rw [hexponent, zpow_sub₀ hten, zpow_add₀ hten, zpow_natCast, zpow_natCast,
    zpow_natCast, ← hvalue]
  push_cast
  ring

theorem shortest_eq {x : Float} {sign : Float.Model.UnpackedFloat.Sign}
    {mantissa : ℕ} {power : ℤ} {hpos : 0 < mantissa}
    (hx : x.toModel.unpack = .finite sign mantissa power hpos) :
    shortest x = (magnitudeOf mantissa power).interval.shortest := by
  rw [shortest, ofBits_toBits hx]
  rfl

theorem shortest_spec {x : Float} {sign : Float.Model.UnpackedFloat.Sign}
    {mantissa : ℕ} {power : ℤ} {hpos : 0 < mantissa}
    (hx : x.toModel.unpack = .finite sign mantissa power hpos) :
    (shortest x).Reduced ∧ Attracts mantissa power (shortest x).value := by
  have hcanonical := (canonical_of_unpack hx).1
  have hcontains := Interval.contains_search (contains_value hcanonical hpos)
    ((digitsOf (magnitudeOf mantissa power).interval.value).length - 1)
  have hnear := (contains_iff_attracts hcanonical hpos _).mp hcontains
  rw [← value_shortest] at hnear
  rw [shortest_eq hx]
  refine ⟨reduced_digitsOf (Nat.pos_of_ne_zero fun hzero => ?_) _, hnear⟩
  have hlarge := hnear.underflow_lt hpos
  rw [value_shortest, hzero, Nat.zero_mul, Nat.cast_zero, zero_div] at hlarge
  exact hlarge.not_gt (half_pos (zpow_two_pos (-1074)))

end NumberedBasic.Decimal
