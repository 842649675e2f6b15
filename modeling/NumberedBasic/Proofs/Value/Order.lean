import Mathlib.Data.Prod.Lex

/-!
# The order of doubles

Every double but the undefined one has a rank, and two doubles are in order if
their ranks are.  What is needed of comparisons follows from the order of the
ranks, which is linear.
-/

namespace NumberedBasic.Double

open Float.Model

/-- Sign and size class, exponent and mantissa, the most significant first. -/
abbrev Rank := Int ×ₗ Int ×ₗ Int

/-- A rank above zero, or its counterpart below. -/
def signedRank (sign : UnpackedFloat.Sign) (size exponent mantissa : Int) :
    Rank :=
  match sign with
  | .positive => toLex (size, toLex (exponent, mantissa))
  | .negative => toLex (-size, toLex (-exponent, -mantissa))

def unpackedRank? : UnpackedFloat → Option Rank
  | .notANumber => none
  | .zero _ => some (signedRank .positive 0 0 0)
  | .finite sign mantissa exponent _ =>
      some (signedRank sign 1 exponent mantissa)
  | .infinity sign => some (signedRank sign 2 0 0)

/-- The place of a double in the order; the two zeros share theirs. -/
def rank? (x : Float) : Option Rank := unpackedRank? x.toModel.unpack

theorem unpacked_lt_iff (a b : UnpackedFloat) :
    a.lt b = true ↔
      ∃ r s, unpackedRank? a = some r ∧ unpackedRank? b = some s ∧ r < s := by
  rcases a with sign | _ | sign | ⟨sign, m, e⟩ <;>
    rcases b with sign' | _ | sign' | ⟨sign', m', e'⟩
  all_goals
    (try cases sign) <;> (try cases sign') <;>
      dsimp only [UnpackedFloat.lt, UnpackedFloat.compare, unpackedRank?,
        signedRank] <;>
      simp [Prod.Lex.toLex_lt_toLex, Ordering.then_eq_lt, Ordering.swap_then,
        compare_lt_iff_lt, compare_gt_iff_gt] <;> decide

theorem unpacked_le_iff (a b : UnpackedFloat) :
    a.le b = true ↔
      ∃ r s, unpackedRank? a = some r ∧ unpackedRank? b = some s ∧ r ≤ s := by
  rcases a with sign | _ | sign | ⟨sign, m, e⟩ <;>
    rcases b with sign' | _ | sign' | ⟨sign', m', e'⟩
  all_goals
    (try cases sign) <;> (try cases sign') <;>
      dsimp only [UnpackedFloat.le, UnpackedFloat.compare, unpackedRank?,
        signedRank] <;>
      simp [Prod.Lex.toLex_le_toLex, Ordering.isLE_then_iff_or,
        Ordering.swap_then, Std.isLE_compare, Std.isGE_compare,
        compare_lt_iff_lt, compare_gt_iff_gt] <;> decide

theorem lt_iff_rank (x y : Float) :
    x < y ↔ ∃ r s, rank? x = some r ∧ rank? y = some s ∧ r < s := by
  change decide (x.toModel < y.toModel) = true ↔ _
  rw [decide_eq_true_iff]
  exact unpacked_lt_iff _ _

theorem le_iff_rank (x y : Float) :
    x ≤ y ↔ ∃ r s, rank? x = some r ∧ rank? y = some s ∧ r ≤ s := by
  change decide (x.toModel ≤ y.toModel) = true ↔ _
  rw [decide_eq_true_iff]
  exact unpacked_le_iff _ _

theorem rank?_eq_none_iff (x : Float) : rank? x = none ↔ x.isNaN = true := by
  change _ ↔ x.toModel.unpack.isNaN = true
  rw [rank?]
  cases x.toModel.unpack with
  | notANumber => exact iff_of_true rfl rfl
  | _ => exact iff_of_false (Option.some_ne_none _) Bool.false_ne_true

theorem not_lt_of_lt {x y : Float} (hlt : x < y) : ¬y < x := by
  rw [lt_iff_rank] at hlt ⊢
  obtain ⟨r, s, hr, hs, hlt⟩ := hlt
  rintro ⟨s', r', hs', hr', hlt'⟩
  obtain rfl := Option.some.inj (hr.symm.trans hr')
  obtain rfl := Option.some.inj (hs.symm.trans hs')
  exact lt_asymm hlt hlt'

theorem le_of_lt {x y : Float} (hlt : x < y) : x ≤ y := by
  rw [lt_iff_rank] at hlt
  rw [le_iff_rank]
  obtain ⟨r, s, hr, hs, hlt⟩ := hlt
  exact ⟨r, s, hr, hs, hlt.le⟩

theorem not_lt_of_le {x y : Float} (hle : x ≤ y) : ¬y < x := by
  rw [lt_iff_rank]
  rw [le_iff_rank] at hle
  obtain ⟨r, s, hr, hs, hle⟩ := hle
  rintro ⟨s', r', hs', hr', hlt⟩
  obtain rfl := Option.some.inj (hr.symm.trans hr')
  obtain rfl := Option.some.inj (hs.symm.trans hs')
  exact not_lt_of_ge hle hlt

/-- Doubles that are not undefined can be compared. -/
theorem lt_or_le {x y : Float} (hx : x.isNaN = false) (hy : y.isNaN = false) :
    x < y ∨ y ≤ x := by
  have hrank {z : Float} (hz : z.isNaN = false) : ∃ r, rank? z = some r := by
    rw [← Option.ne_none_iff_exists', ne_eq, rank?_eq_none_iff, hz]
    exact Bool.false_ne_true
  obtain ⟨r, hr⟩ := hrank hx
  obtain ⟨s, hs⟩ := hrank hy
  rw [lt_iff_rank, le_iff_rank]
  exact (lt_or_ge r s).imp (fun hlt => ⟨r, s, hr, hs, hlt⟩)
    fun hle => ⟨s, r, hs, hr, hle⟩

theorem isNaN_of_le {x y : Float} (hle : x ≤ y) :
    x.isNaN = false ∧ y.isNaN = false := by
  rw [le_iff_rank] at hle
  obtain ⟨r, s, hr, hs, -⟩ := hle
  rw [← Bool.not_eq_true, ← Bool.not_eq_true, ← rank?_eq_none_iff,
    ← rank?_eq_none_iff, hr, hs]
  exact ⟨Option.some_ne_none r, Option.some_ne_none s⟩

/-- A sum with an undefined number is undefined. -/
theorem isNaN_add (x : Float) {y : Float} (hy : y.isNaN = true) :
    (x + y).isNaN = true := by
  have hunpacked : y.toModel.unpack = .notANumber := by
    change y.toModel.unpack.isNaN = true at hy
    cases hmodel : y.toModel.unpack with
    | notANumber => rfl
    | _ => rw [hmodel] at hy; cases hy
  have hsum : UnpackedFloat.add Format.binary64 x.toModel.unpack .notANumber =
      .notANumber := by
    cases x.toModel.unpack <;> rfl
  change (UnpackedFloat.unpack Format.binary64
    (UnpackedFloat.pack Format.binary64 (UnpackedFloat.add Format.binary64
      x.toModel.unpack y.toModel.unpack))).isNaN = true
  rw [hunpacked, hsum]
  decide

end NumberedBasic.Double
