import Mathlib.Algebra.Order.Field.Power
import Mathlib.Data.Nat.Cast.Order.Field
import Mathlib.Tactic.FieldSimp
import Mathlib.Tactic.Linarith
import Mathlib.Tactic.Positivity
import Mathlib.Tactic.Ring

/-!
# Magnitudes of doubles

A magnitude is a whole number below `2 ^ 53` times a power of two that is at
least `2 ^ (-1074)`.  The reals that round to it form an interval, with both
ends if the whole number is even and without them if it is odd.  The intervals
are in the order of the magnitudes, and no number lies in two of them.
-/

namespace NumberedBasic.Double

/-- Between two bounds, which themselves count if the interval is closed. -/
structure Between (closed : Prop) (low high x : ℚ) : Prop where
  low_le : low ≤ x
  le_high : x ≤ high
  inside : closed ∨ low < x ∧ x < high

theorem between_mul_iff {closed : Prop} {low high x scale : ℚ}
    (hscale : 0 < scale) :
    Between closed (low * scale) (high * scale) (x * scale) ↔
      Between closed low high x := by
  constructor
  · rintro ⟨hlow, hhigh, hinside⟩
    simp only [mul_lt_mul_iff_left₀ hscale] at hinside
    exact ⟨le_of_mul_le_mul_right hlow hscale,
      le_of_mul_le_mul_right hhigh hscale, hinside⟩
  · rintro ⟨hlow, hhigh, hinside⟩
    refine ⟨mul_le_mul_of_nonneg_right hlow hscale.le,
      mul_le_mul_of_nonneg_right hhigh hscale.le, ?_⟩
    simpa only [mul_lt_mul_iff_left₀ hscale] using hinside

/-- The whole number nearest to `x`; of two, the even one. -/
def RoundsEven (x : ℚ) (n : ℕ) : Prop :=
  Between (Even n) (n - 1 / 2) (n + 1 / 2) x

theorem roundsEven_le {x : ℚ} {n k : ℕ} (hn : RoundsEven x n)
    (hk : RoundsEven x k) : n ≤ k := by
  by_contra hlt
  have hsucc : k + 1 ≤ n := by omega
  have hcast : (k : ℚ) + 1 ≤ n := by exact_mod_cast hsucc
  have hle := hn.low_le
  have hge := hk.le_high
  rcases hn.inside with heven | ⟨hinside, -⟩
  · rcases hk.inside with heven' | ⟨-, hinside⟩
    · have hn : (n : ℚ) = k + 1 := by linarith
      have hn : n = k + 1 := by exact_mod_cast hn
      rw [hn, Nat.even_add_one] at heven
      exact heven heven'
    · linarith
  · linarith

theorem RoundsEven.unique {x : ℚ} {n k : ℕ} (hn : RoundsEven x n)
    (hk : RoundsEven x k) : n = k :=
  Nat.le_antisymm (roundsEven_le hn hk) (roundsEven_le hk hn)

/-! ## The scale of a number -/

theorem zpow_two_pos (power : ℤ) : (0 : ℚ) < 2 ^ power :=
  zpow_pos two_pos power

theorem zpow_two_add (power : ℤ) (n : ℕ) :
    (2 : ℚ) ^ (power + n) = 2 ^ n * 2 ^ power := by
  rw [zpow_add₀ two_ne_zero, zpow_natCast, mul_comm]

theorem zpow_two_succ (power : ℤ) : (2 : ℚ) ^ (power + 1) = 2 * 2 ^ power := by
  rw [zpow_add_one₀ two_ne_zero, mul_comm]

/-- A number below `2 ^ 53` units of the scale, and not below half of that
unless the scale is the finest. -/
structure IsScale (v : ℚ) (power : ℤ) : Prop where
  below : v < 2 ^ (power + 53)
  least : -1074 ≤ power
  above : power = -1074 ∨ 2 ^ (power + 52) ≤ v

theorem isScale_le {v : ℚ} {s t : ℤ} (hs : IsScale v s) (ht : IsScale v t) :
    s ≤ t := by
  by_contra hlt
  have habove : 2 ^ (s + 52) ≤ v := by
    rcases hs.above with hleast | habove
    · have := ht.least
      omega
    · exact habove
  have hpower : (2 : ℚ) ^ (t + 53) ≤ 2 ^ (s + 52) :=
    zpow_le_zpow_right₀ one_le_two (by omega)
  exact (ht.below.trans_le hpower).not_ge habove

theorem IsScale.unique {v : ℚ} {s t : ℤ} (hs : IsScale v s)
    (ht : IsScale v t) : s = t :=
  le_antisymm (isScale_le hs ht) (isScale_le ht hs)

/-! ## Magnitudes -/

/-- The whole numbers and powers of two that make up the magnitudes. -/
structure Canonical (mantissa : ℕ) (power : ℤ) : Prop where
  bits : mantissa < 2 ^ 53
  least : -1074 ≤ power
  normal : power = -1074 ∨ 2 ^ 52 ≤ mantissa

/-- The lower end of what rounds to a magnitude, in units of its power: half a
unit below, but a quarter where a smaller unit begins. -/
def lowEnd (mantissa : ℕ) (power : ℤ) : ℚ :=
  mantissa - if mantissa = 2 ^ 52 ∧ -1074 < power then 1 / 4 else 1 / 2

/-- `v` is among the reals that round to `mantissa * 2 ^ power`. -/
structure Attracts (mantissa : ℕ) (power : ℤ) (v : ℚ) : Prop where
  canonical : Canonical mantissa power
  near : Between (Even mantissa) (lowEnd mantissa power * 2 ^ power)
    ((mantissa + 1 / 2) * 2 ^ power) v

theorem lowEnd_le (mantissa : ℕ) (power : ℤ) :
    lowEnd mantissa power ≤ mantissa - 1 / 4 := by
  rw [lowEnd]
  split <;> linarith

theorem le_lowEnd (mantissa : ℕ) (power : ℤ) :
    (mantissa : ℚ) - 1 / 2 ≤ lowEnd mantissa power := by
  rw [lowEnd]
  split <;> linarith

theorem attracts_iff_div {mantissa : ℕ} {power : ℤ} {v : ℚ} :
    Attracts mantissa power v ↔ Canonical mantissa power ∧
      Between (Even mantissa) (lowEnd mantissa power) (mantissa + 1 / 2)
        (v / 2 ^ power) := by
  have hunit := zpow_two_pos power
  rw [← between_mul_iff hunit, div_mul_cancel₀ _ hunit.ne']
  exact ⟨fun h => ⟨h.canonical, h.near⟩, fun h => ⟨h.1, h.2⟩⟩

theorem isScale_iff_div {v : ℚ} {power : ℤ} :
    IsScale v power ↔ v / 2 ^ power < 2 ^ 53 ∧ -1074 ≤ power ∧
      (power = -1074 ∨ 2 ^ 52 ≤ v / 2 ^ power) := by
  have hunit := zpow_two_pos power
  have hbelow : (2 : ℚ) ^ (power + 53) = 2 ^ 53 * 2 ^ power :=
    zpow_two_add power 53
  have habove : (2 : ℚ) ^ (power + 52) = 2 ^ 52 * 2 ^ power :=
    zpow_two_add power 52
  rw [div_lt_iff₀ hunit, le_div_iff₀ hunit, ← hbelow, ← habove]
  exact ⟨fun h => ⟨h.below, h.least, h.above⟩, fun h => ⟨h.1, h.2.1, h.2.2⟩⟩

/-- A number that rounds to a magnitude has its scale, or the next finer one
and rounds up to a power of two. -/
theorem Attracts.scale {mantissa : ℕ} {power : ℤ} {v : ℚ}
    (h : Attracts mantissa power v) :
    (IsScale v power ∧ RoundsEven (v / 2 ^ power) mantissa) ∨
      (mantissa = 2 ^ 52 ∧ IsScale v (power - 1) ∧
        RoundsEven (v / 2 ^ (power - 1)) (2 ^ 53)) := by
  obtain ⟨⟨hbits, hleast, hnormal⟩, hlow, hhigh, hinside⟩ :=
    attracts_iff_div.mp h
  have hbitsRat : (mantissa : ℚ) + 1 ≤ 2 ^ 53 := by exact_mod_cast hbits
  by_cases hscale : power = -1074 ∨ 2 ^ 52 ≤ v / 2 ^ power
  · refine .inl ⟨isScale_iff_div.mpr ⟨by linarith, hleast, hscale⟩, ?_⟩
    have hhalf := le_lowEnd mantissa power
    refine ⟨by linarith, hhigh, hinside.imp_right fun hopen => ?_⟩
    exact ⟨by linarith [hopen.1], hopen.2⟩
  · right
    rw [not_or, not_le] at hscale
    obtain ⟨hpower, hbelow⟩ := hscale
    have hmantissa : mantissa = 2 ^ 52 := by
      have hhalf := le_lowEnd mantissa power
      have hlt : (mantissa : ℚ) < 2 ^ 52 + 1 := by linarith
      have hlt : mantissa < 2 ^ 52 + 1 := by exact_mod_cast hlt
      omega
    rw [hmantissa, lowEnd, if_pos ⟨rfl, by omega⟩] at hlow
    push_cast at hlow
    have hdouble : v / 2 ^ (power - 1) = 2 * (v / 2 ^ power) := by
      have hunit := zpow_two_succ (power - 1)
      rw [sub_add_cancel] at hunit
      rw [hunit]
      field_simp
    refine ⟨hmantissa, isScale_iff_div.mpr ⟨?_, by omega, .inr ?_⟩,
      ?_, ?_, .inl (by decide)⟩ <;> rw [hdouble]
    · linarith
    · linarith
    · push_cast
      linarith
    · push_cast
      linarith

/-- No number rounds to two magnitudes. -/
theorem Attracts.unique {m n : ℕ} {p q : ℤ} {v : ℚ} (hm : Attracts m p v)
    (hn : Attracts n q v) : m = n ∧ p = q := by
  have hmbits := hm.canonical.bits
  have hnbits := hn.canonical.bits
  rcases hm.scale with ⟨hp, hround⟩ | ⟨rfl, hp, hround⟩ <;>
    rcases hn.scale with ⟨hq, hround'⟩ | ⟨rfl, hq, hround'⟩
  · obtain rfl := hp.unique hq
    exact ⟨hround.unique hround', rfl⟩
  · obtain rfl := hp.unique hq
    have := hround.unique hround'
    omega
  · obtain rfl := hq.unique hp
    have := hround'.unique hround
    omega
  · have := hp.unique hq
    omega

/-- A number rounded at its scale gives a magnitude, after a carry if need
be. -/
theorem attracts_of_roundsEven {n : ℕ} {power : ℤ} {v : ℚ}
    (hscale : IsScale v power) (hround : RoundsEven (v / 2 ^ power) n) :
    n < 2 ^ 53 ∧ Attracts n power v ∨
      n = 2 ^ 53 ∧ Attracts (2 ^ 52) (power + 1) v := by
  obtain ⟨hbelow, hleast, habove⟩ := isScale_iff_div.mp hscale
  obtain ⟨hlow, hhigh, hinside⟩ := hround
  have hle : n ≤ 2 ^ 53 := by
    have hlt : (n : ℚ) < 2 ^ 53 + 1 := by linarith
    have hlt : n < 2 ^ 53 + 1 := by exact_mod_cast hlt
    omega
  rcases hle.lt_or_eq with hlt | rfl
  · refine .inl ⟨hlt, attracts_iff_div.mpr
      ⟨⟨hlt, hleast, habove.imp_right fun habove => ?_⟩, ?_⟩⟩
    · have hlt : (2 : ℚ) ^ 52 < n + 1 := by linarith
      have hlt : 2 ^ 52 < n + 1 := by exact_mod_cast hlt
      omega
    · rw [lowEnd]
      split_ifs with hnarrow
      · obtain ⟨rfl, hpower⟩ := hnarrow
        have habove := habove.resolve_left hpower.ne'
        push_cast at *
        exact ⟨by linarith, hhigh, .inl (by decide)⟩
      · exact ⟨hlow, hhigh, hinside⟩
  · refine .inr ⟨rfl, attracts_iff_div.mpr ⟨⟨by decide, by omega, .inr le_rfl⟩,
      ?_⟩⟩
    have hhalf : v / 2 ^ (power + 1) = v / 2 ^ power / 2 := by
      rw [zpow_two_succ]
      field_simp
    rw [lowEnd, if_pos ⟨rfl, by omega⟩, hhalf]
    push_cast at *
    exact ⟨by linarith, by linarith, .inl (by decide)⟩

/-- A magnitude rounds to itself. -/
theorem attracts_self {mantissa : ℕ} {power : ℤ}
    (h : Canonical mantissa power) :
    Attracts mantissa power (mantissa * 2 ^ power) := by
  have hlow := lowEnd_le mantissa power
  rw [attracts_iff_div, mul_div_cancel_right₀ _ (zpow_two_pos power).ne']
  exact ⟨h, by linarith, by linarith, .inr ⟨by linarith, by linarith⟩⟩

/-! ## The order of magnitudes -/

/-- The larger the magnitude, the larger what rounds to it. -/
theorem Attracts.le_of_lex {m n : ℕ} {p q : ℤ} {v w : ℚ} (hm : Attracts m p v)
    (hn : Attracts n q w) (hlex : p < q ∨ p = q ∧ m < n) : v ≤ w := by
  rcases hlex with hlt | ⟨rfl, hlt⟩
  · have hbits : (m : ℚ) + 1 ≤ 2 ^ 53 := by exact_mod_cast hm.canonical.bits
    have hleast := hm.canonical.least
    have hnormal := hn.canonical.normal.resolve_left (by omega)
    have hlow : (2 : ℚ) ^ 52 - 1 / 4 ≤ lowEnd n q := by
      rw [lowEnd]
      split_ifs with hnarrow
      · rw [hnarrow.1]
        push_cast
        exact le_rfl
      · have hlt : 2 ^ 52 + 1 ≤ n := by omega
        have hlt : (2 : ℚ) ^ 52 + 1 ≤ n := by exact_mod_cast hlt
        linarith
    have hunit : (2 : ℚ) * 2 ^ p ≤ 2 ^ q := by
      rw [← zpow_two_succ]
      exact zpow_le_zpow_right₀ one_le_two (by omega)
    have hpos := zpow_two_pos p
    calc v ≤ (m + 1 / 2) * 2 ^ p := hm.near.le_high
      _ ≤ (2 ^ 53 - 1 / 2) * 2 ^ p := by
        exact mul_le_mul_of_nonneg_right (by linarith) hpos.le
      _ = (2 ^ 52 - 1 / 4) * (2 * 2 ^ p) := by ring
      _ ≤ lowEnd n q * 2 ^ q := by
        exact mul_le_mul hlow hunit (by positivity) (by linarith)
      _ ≤ w := hn.near.low_le
  · have hsucc : (m : ℚ) + 1 ≤ n := by exact_mod_cast hlt
    have hhalf := le_lowEnd n p
    calc v ≤ (m + 1 / 2) * 2 ^ p := hm.near.le_high
      _ ≤ lowEnd n p * 2 ^ p :=
        mul_le_mul_of_nonneg_right (by linarith) (zpow_two_pos p).le
      _ ≤ w := hn.near.low_le

theorem Attracts.lt_of_lex {m n : ℕ} {p q : ℤ} {v w : ℚ} (hm : Attracts m p v)
    (hn : Attracts n q w) (hlex : p < q ∨ p = q ∧ m < n) : v < w := by
  refine lt_of_le_of_ne (hm.le_of_lex hn hlex) ?_
  rintro rfl
  obtain ⟨rfl, rfl⟩ := hm.unique hn
  rcases hlex with hlt | ⟨-, hlt⟩
  · exact lt_irrefl p hlt
  · exact lt_irrefl m hlt

/-- What rounds to a magnitude has no gaps. -/
theorem Attracts.between {mantissa : ℕ} {power : ℤ} {a b c : ℚ}
    (ha : Attracts mantissa power a) (hb : Attracts mantissa power b)
    (hac : a ≤ c) (hcb : c ≤ b) : Attracts mantissa power c where
  canonical := ha.canonical
  near :=
    { low_le := ha.near.low_le.trans hac
      le_high := hcb.trans hb.near.le_high
      inside := by
        rcases ha.near.inside with hclosed | ⟨hlow, -⟩
        · exact .inl hclosed
        rcases hb.near.inside with hclosed | ⟨-, hhigh⟩
        · exact .inl hclosed
        · exact .inr ⟨hlow.trans_le hac, hcb.trans_lt hhigh⟩ }

/-! ## The ends of the range -/

/-- The greatest number that rounds to zero: half of the least magnitude above
it. -/
def underflow : ℚ := 2 ^ (-1074 : ℤ) / 2

/-- The least number beyond the range of doubles, halfway from the greatest
magnitude in it to the next power of two. -/
def overflow : ℚ := (2 ^ 53 - 1 / 2) * 2 ^ (971 : ℤ)

theorem attracts_zero_iff {v : ℚ} (hv : 0 ≤ v) :
    Attracts 0 (-1074) v ↔ v ≤ underflow := by
  have hunit := zpow_two_pos (-1074)
  rw [attracts_iff_div, underflow, lowEnd, if_neg (by decide), Nat.cast_zero,
    zero_add]
  generalize (2 : ℚ) ^ (-1074 : ℤ) = unit at *
  have hnonneg : 0 ≤ v / unit := div_nonneg hv hunit.le
  constructor
  · rintro ⟨-, -, hhigh, -⟩
    rw [div_le_iff₀ hunit] at hhigh
    linarith
  · intro hle
    have hhigh : v / unit ≤ 1 / 2 := by
      rw [div_le_iff₀ hunit]
      linarith
    exact ⟨⟨by decide, le_rfl, .inl rfl⟩, by linarith, hhigh, .inl (by decide)⟩

/-- What rounds to a positive magnitude does not round to zero. -/
theorem Attracts.underflow_lt {mantissa : ℕ} {power : ℤ} {v : ℚ}
    (h : Attracts mantissa power v) (hpos : 0 < mantissa) : underflow < v := by
  have hnonneg : 0 ≤ underflow := (half_pos (zpow_two_pos (-1074))).le
  refine ((attracts_zero_iff hnonneg).mpr le_rfl).lt_of_lex h ?_
  rcases h.canonical.least.lt_or_eq with hlt | heq
  · exact .inl hlt
  · exact .inr ⟨heq, hpos⟩

theorem overflow_eq : overflow = lowEnd (2 ^ 52) 972 * 2 ^ (972 : ℤ) := by
  have hunit : (2 : ℚ) ^ (972 : ℤ) = 2 * 2 ^ (971 : ℤ) := zpow_two_succ 971
  rw [overflow, lowEnd, if_pos ⟨rfl, by decide⟩, hunit]
  generalize (2 : ℚ) ^ (971 : ℤ) = unit
  push_cast
  ring

theorem attracts_overflow : Attracts (2 ^ 52) 972 overflow := by
  refine attracts_iff_div.mpr ⟨⟨by decide, by decide, .inr le_rfl⟩, ?_⟩
  have hlow := lowEnd_le (2 ^ 52) 972
  rw [overflow_eq, mul_div_cancel_right₀ _ (zpow_two_pos 972).ne']
  exact ⟨le_rfl, by linarith, .inl (by decide)⟩

theorem Attracts.overflow_le_iff {mantissa : ℕ} {power : ℤ} {v : ℚ}
    (h : Attracts mantissa power v) : overflow ≤ v ↔ 971 < power := by
  constructor
  · intro hle
    by_contra hpower
    have hlt := h.lt_of_lex attracts_overflow (.inl (by omega))
    exact hlt.not_ge hle
  · intro hpower
    have hnormal := h.canonical.normal.resolve_left (by omega)
    by_cases hequal : power = 972 ∧ mantissa = 2 ^ 52
    · obtain ⟨rfl, rfl⟩ := hequal
      rw [overflow_eq]
      exact h.near.low_le
    · exact attracts_overflow.le_of_lex h (by omega)

end NumberedBasic.Double
