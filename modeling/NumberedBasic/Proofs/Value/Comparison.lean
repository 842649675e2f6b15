import Mathlib.Data.String.Basic
import Mathlib.Order.Compare
import NumberedBasic.Proofs.Value.Order
import NumberedBasic.Value.Operators

/-!
# Comparisons

Values of one kind are compared by their ranks: those of texts are the texts
themselves, and an undefined number has none.  What has no rank is level with
everything of its kind, so that there are numbers that are both level with an
undefined one and not level with each other.
-/

namespace NumberedBasic

/-! ## Ranks that may be missing -/

section Ranks

variable {α : Type} [LinearOrder α] {r s t : Option α}

/-- The order of two ranks, which are level if one of them is missing. -/
def compareRanks : Option α → Option α → Ordering
  | some r, some s => cmp r s
  | _, _ => .eq

theorem swap_compareRanks (r s : Option α) :
    (compareRanks r s).swap = compareRanks s r := by
  cases r with
  | none => cases s <;> rfl
  | some r =>
      cases s with
      | none => rfl
      | some s => exact cmp_swap r s

theorem compareRanks_self (r : Option α) : compareRanks r r = .eq := by
  cases r with
  | none => rfl
  | some r => exact cmp_self_eq_eq r

theorem compareRanks_eq_lt_iff :
    compareRanks r s = .lt ↔ ∃ x y, r = some x ∧ s = some y ∧ x < y := by
  constructor
  · intro hlt
    cases r with
    | none => cases hlt
    | some x =>
        cases s with
        | none => cases hlt
        | some y => exact ⟨x, y, rfl, rfl, (cmp_eq_lt_iff x y).mp hlt⟩
  · rintro ⟨x, y, rfl, rfl, hlt⟩
    exact (cmp_eq_lt_iff x y).mpr hlt

theorem compareRanks_eq_eq_iff :
    compareRanks r s = .eq ↔ r = none ∨ s = none ∨ r = s := by
  constructor
  · intro heq
    cases r with
    | none => exact .inl rfl
    | some x =>
        cases s with
        | none => exact .inr (.inl rfl)
        | some y =>
            exact .inr (.inr (congrArg some ((cmp_eq_eq_iff x y).mp heq)))
  · rintro (rfl | rfl | rfl)
    · rfl
    · cases r <;> rfl
    · exact compareRanks_self r

theorem compareRanks_lt_trans (hrs : compareRanks r s = .lt)
    (hst : compareRanks s t = .lt) : compareRanks r t = .lt := by
  rw [compareRanks_eq_lt_iff] at hrs hst ⊢
  obtain ⟨x, y, hr, hs, hxy⟩ := hrs
  obtain ⟨y', z, hs', ht, hyz⟩ := hst
  obtain rfl := Option.some.inj (hs.symm.trans hs')
  exact ⟨x, z, hr, ht, hxy.trans hyz⟩

/-- What is level with the same rank is level, but only if that rank is not
missing. -/
theorem compareRanks_eq_trans (hs : s ≠ none) (hrs : compareRanks r s = .eq)
    (hst : compareRanks s t = .eq) : compareRanks r t = .eq := by
  rw [compareRanks_eq_eq_iff] at hrs hst ⊢
  obtain hr | hs' | rfl := hrs
  · exact .inl hr
  · exact absurd hs' hs
  · exact hst

theorem compareRanks_lt_of_eq (hr : r ≠ none) (hrs : compareRanks r s = .eq)
    (hst : compareRanks s t = .lt) : compareRanks r t = .lt := by
  rw [compareRanks_eq_eq_iff] at hrs
  obtain hr' | rfl | rfl := hrs
  · exact absurd hr' hr
  · cases hst
  · exact hst

end Ranks

namespace Value

theorem compareTexts_eq (s t : String) :
    compareTexts s t = compareRanks (some s) (some t) := rfl

theorem compareNumbers_eq (x y : Float) :
    compareNumbers x y = compareRanks (Double.rank? x) (Double.rank? y) := by
  have hlt := Double.lt_iff_rank x y
  have hgt := Double.lt_iff_rank y x
  rw [compareNumbers]
  cases hx : Double.rank? x with
  | none =>
      rw [if_neg (by simp [hlt, hx]), if_neg (by simp [hgt, hx])]
      rfl
  | some r =>
      cases hy : Double.rank? y with
      | none =>
          rw [if_neg (by simp [hlt, hy]), if_neg (by simp [hgt, hy])]
          rfl
      | some s =>
          simp only [hlt, hgt, hx, hy, Option.some.injEq, exists_eq_left',
            exists_and_left]
          rfl

/-! ## Three values of one kind -/

/-- Three numbers, or three texts. -/
inductive OfOneKind : Value → Value → Value → Prop where
  | numbers (x y z : Float) : OfOneKind (number x) (number y) (number z)
  | texts (s t u : String) : OfOneKind (text s) (text t) (text u)

def IsUndefined : Value → Prop
  | number x => x.isNaN = true
  | text _ => False

/-- The comparison yields one. -/
def Holds (op : BinaryOp) (left right : Value) : Prop :=
  op.apply left right = .ok (number 1)

theorem ofBool_eq_one_iff (condition : Bool) :
    (.ok (ofBool condition) : Except RunError Value) = .ok (number 1) ↔
      condition = true := by
  have hne : (0 : Float) ≠ 1 := by decide
  cases condition <;> simp [ofBool, hne]

theorem holds_less_iff {a b : Value} : Holds .less a b ↔ a.compare b = .lt := by
  rw [Holds, BinaryOp.apply, ofBool_eq_one_iff, beq_iff_eq]

theorem holds_equal_iff {a b : Value} :
    Holds .equal a b ↔ a.compare b = .eq := by
  rw [Holds, BinaryOp.apply, ofBool_eq_one_iff, beq_iff_eq]

theorem holds_greater_iff {a b : Value} :
    Holds .greater a b ↔ a.compare b = .gt := by
  rw [Holds, BinaryOp.apply, ofBool_eq_one_iff, beq_iff_eq]

theorem not_ofBool (condition : Bool) :
    UnaryOp.not.apply (ofBool condition) = ofBool (!condition) := by
  cases condition <;> decide

/-- Values of one kind are compared by ranks, which only undefined numbers
lack. -/
theorem OfOneKind.exists_ranks {a b c : Value} (hkind : OfOneKind a b c) :
    ∃ (α : Type) (_ : LinearOrder α) (r s t : Option α),
      a.compare a = compareRanks r r ∧ a.compare b = compareRanks r s ∧
      b.compare a = compareRanks s r ∧ b.compare c = compareRanks s t ∧
      a.compare c = compareRanks r t ∧
      (r = none ↔ a.IsUndefined) ∧ (s = none ↔ b.IsUndefined) := by
  cases hkind with
  | numbers x y z =>
      exact ⟨Double.Rank, inferInstance, Double.rank? x, Double.rank? y,
        Double.rank? z, compareNumbers_eq x x, compareNumbers_eq x y,
        compareNumbers_eq y x, compareNumbers_eq y z, compareNumbers_eq x z,
        Double.rank?_eq_none_iff x, Double.rank?_eq_none_iff y⟩
  | texts s t u =>
      exact ⟨String, inferInstance, some s, some t, some u,
        compareTexts_eq s s, compareTexts_eq s t, compareTexts_eq t s,
        compareTexts_eq t u, compareTexts_eq s u, iff_of_false nofun id,
        iff_of_false nofun id⟩

/-- What all comparisons among three values have to do with one another.  A
value that is level with an undefined number, and that number with a third
value, says nothing about the first and the third. -/
structure ConsistentlyOrdered (a b c : Value) : Prop where
  exactlyOne :
    (Holds .less a b ∧ ¬Holds .equal a b ∧ ¬Holds .greater a b) ∨
      (¬Holds .less a b ∧ Holds .equal a b ∧ ¬Holds .greater a b) ∨
      (¬Holds .less a b ∧ ¬Holds .equal a b ∧ Holds .greater a b)
  lessEqual : BinaryOp.lessEqual.apply a b =
    (BinaryOp.greater.apply a b).map UnaryOp.not.apply
  greaterEqual : BinaryOp.greaterEqual.apply a b =
    (BinaryOp.less.apply a b).map UnaryOp.not.apply
  notEqual : BinaryOp.notEqual.apply a b =
    (BinaryOp.equal.apply a b).map UnaryOp.not.apply
  swapLess : BinaryOp.less.apply b a = BinaryOp.greater.apply a b
  swapGreater : BinaryOp.greater.apply b a = BinaryOp.less.apply a b
  swapEqual : BinaryOp.equal.apply b a = BinaryOp.equal.apply a b
  swapNotEqual : BinaryOp.notEqual.apply b a = BinaryOp.notEqual.apply a b
  lessTrans : Holds .less a b → Holds .less b c → Holds .less a c
  equalSelf : Holds .equal a a
  equalTrans : ¬b.IsUndefined →
    Holds .equal a b → Holds .equal b c → Holds .equal a c
  equalLess : ¬a.IsUndefined →
    Holds .equal a b → Holds .less b c → Holds .less a c
  levelWithUndefined : b.IsUndefined → Holds .equal a b ∧ Holds .equal b c
  sameText : ∀ s t, a = text s → b = text t → Holds .equal a b → s = t
  lessNumber : ∀ x y, a = number x → b = number y → (Holds .less a b ↔ x < y)

/-- Comparisons order the texts, and the numbers up to the undefined ones,
which are level with all others. -/
theorem OfOneKind.consistentlyOrdered {a b c : Value}
    (hkind : OfOneKind a b c) : ConsistentlyOrdered a b c := by
  obtain ⟨α, _, r, s, t, haa, hab, hba, hbc, hac, hr, hs⟩ := hkind.exists_ranks
  have hswap : b.compare a = (a.compare b).swap := by
    rw [hba, hab, swap_compareRanks]
  constructor
  case exactlyOne =>
    simp only [holds_less_iff, holds_equal_iff, holds_greater_iff]
    cases a.compare b <;> simp
  case lessEqual | greaterEqual | notEqual =>
    simp only [BinaryOp.apply, Except.map, not_ofBool, bne]
  case swapLess | swapGreater | swapEqual | swapNotEqual =>
    simp only [BinaryOp.apply, hswap]
    cases a.compare b <;> rfl
  case lessTrans =>
    simp only [holds_less_iff, hab, hbc, hac]
    exact compareRanks_lt_trans
  case equalSelf => rw [holds_equal_iff, haa, compareRanks_self]
  case equalTrans =>
    simp only [holds_equal_iff, hab, hbc, hac, ← hs]
    exact compareRanks_eq_trans
  case equalLess =>
    simp only [holds_equal_iff, holds_less_iff, hab, hbc, hac, ← hr]
    exact compareRanks_lt_of_eq
  case levelWithUndefined =>
    intro hundefined
    rw [holds_equal_iff, holds_equal_iff, hab, hbc, hs.mpr hundefined,
      compareRanks_eq_eq_iff, compareRanks_eq_eq_iff]
    exact ⟨.inr (.inl rfl), .inl rfl⟩
  case sameText =>
    rintro s t rfl rfl hequal
    rw [holds_equal_iff] at hequal
    exact (cmp_eq_eq_iff s t).mp hequal
  case lessNumber =>
    rintro x y rfl rfl
    rw [holds_less_iff]
    change compareNumbers x y = .lt ↔ _
    rw [compareNumbers_eq, compareRanks_eq_lt_iff, Double.lt_iff_rank]

/-- An undefined number between two that differ. -/
theorem OfOneKind.consistentlyOrdered_of_undefined :
    OfOneKind (number 1) (number (0 / 0)) (number 2) ∧
      ConsistentlyOrdered (number 1) (number (0 / 0)) (number 2) :=
  ⟨.numbers 1 (0 / 0) 2,
    OfOneKind.consistentlyOrdered (.numbers 1 (0 / 0) 2)⟩

/-- Two numbers that are level with an undefined one need not be level with
each other, and it is not less than what they are less than. -/
theorem equal_undefined_not_trans :
    Holds .equal (number 1) (number (0 / 0)) ∧
      Holds .equal (number (0 / 0)) (number 2) ∧
      ¬Holds .equal (number 1) (number 2) ∧
      Holds .equal (number (0 / 0)) (number 1) ∧
      Holds .less (number 1) (number 2) ∧
      ¬Holds .less (number (0 / 0)) (number 2) := by
  simp only [holds_equal_iff, holds_less_iff]
  decide

end Value

end NumberedBasic
