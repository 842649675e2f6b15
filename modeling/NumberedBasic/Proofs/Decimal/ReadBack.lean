import NumberedBasic.Proofs.Decimal.Limits
import NumberedBasic.Proofs.Decimal.Printing

/-!
# Printed numbers read back

The literal at the start of a printed number is the whole text, and the number
read from it is the printed one.
-/

namespace NumberedBasic.Decimal

open Double Float.Model UnpackedFloat

/-! ## Reading a literal -/

/-- What a literal denotes, unless it is infinite. -/
def Literal.value? (literal : Literal) : Option ℚ :=
  literal.magnitude.value?.map fun v => if literal.negative then -v else v

/-- A spelled literal is itself the longest lead of its text. -/
theorem Literal.Spells.longestLead {literal : Literal} {text : List Char}
    (h : literal.Spells text) : LongestLead text literal text where
  starts := List.prefix_rfl
  leads := ⟨[], text, rfl, nofun, h⟩
  longest := fun _ _ hstarts _ => hstarts.length_le

theorem leadingNumber_of_spells {literal : Literal} {text : List Char}
    (h : literal.Spells text) : leadingNumber text = literal.toFloat := by
  have hhead := head_of_spells h []
  rw [List.append_nil] at hhead
  have htrim : Text.trimLeft text = text := (Text.span_of_head hhead).2
  rw [leadingNumber, htrim, scan?_of_spells h]

theorem Magnitude.roundsTo_toFloat {magnitude : Magnitude} {v : ℚ}
    (h : magnitude.value? = some v) : RoundsTo v magnitude.toFloat := by
  cases magnitude with
  | infinity => cases h
  | decimal whole fraction exponent =>
      cases h
      exact roundsTo_nearest _ _

/-! ## Finite doubles -/

theorem exists_unpack {x : Float} (hnan : x.isNaN = false)
    (hinf : x.isInf = false) (hne : (x == 0) = false) :
    ∃ sign mantissa power, ∃ hpos : 0 < mantissa,
      x.toModel.unpack = .finite sign mantissa power hpos := by
  change x.toModel.unpack.isNaN = false at hnan
  change x.toModel.unpack.isInf = false at hinf
  change UnpackedFloat.beq x.toModel.unpack (.zero .positive) = false at hne
  cases hx : x.toModel.unpack with
  | notANumber =>
      rw [hx] at hnan
      cases hnan
  | infinity sign =>
      rw [hx] at hinf
      cases hinf
  | zero sign =>
      rw [hx] at hne
      cases hne
  | finite sign mantissa power hpos => exact ⟨sign, mantissa, power, hpos, rfl⟩

section Finite

variable {x : Float} {sign : Sign} {mantissa : ℕ} {power : ℤ}
variable {hpos : 0 < mantissa}

theorem lt_zero_iff (hx : x.toModel.unpack = .finite sign mantissa power hpos) :
    x < 0 ↔ sign = .negative := by
  change decide (UnpackedFloat.lt x.toModel.unpack (.zero .positive) = true) = true ↔ _
  rw [hx, decide_eq_true_iff]
  cases sign with
  | positive => exact iff_of_false Bool.false_ne_true nofun
  | negative => exact iff_of_true rfl rfl

/-- A double is its magnitude with its sign. -/
theorem eq_signed_abs
    (hx : x.toModel.unpack = .finite sign mantissa power hpos) :
    x = if x < 0 then -x.abs else x.abs := by
  have habs := unpack_abs hx
  apply eq_of_unpack_eq
  cases sign with
  | positive =>
      have hsign : ¬x < 0 := by
        rw [lt_zero_iff hx]
        exact nofun
      rw [if_neg hsign, hx, habs]
  | negative =>
      rw [if_pos ((lt_zero_iff hx).mpr rfl), unpack_neg, hx, habs]
      rfl

theorem roundsTo_abs (hx : x.toModel.unpack = .finite sign mantissa power hpos) :
    RoundsTo (shortest x).value x.abs :=
  roundsTo_of_finite (unpack_abs hx) (shortest_spec hx).2

/-- A printed number is the text of its magnitude after its sign. -/
theorem text_of_finite
    (hx : x.toModel.unpack = .finite sign mantissa power hpos) :
    (text printed x).toList =
      (if x < 0 then ['-'] else []) ++ (shortest x).text printed := by
  have hnan : x.isNaN = false := by
    change x.toModel.unpack.isNaN = false
    rw [hx]
    rfl
  have hinf : x.isInf = false := by
    change x.toModel.unpack.isInf = false
    rw [hx]
    rfl
  have hne : (x == 0) = false := by
    change UnpackedFloat.beq x.toModel.unpack (.zero .positive) = false
    rw [hx]
    cases sign <;> rfl
  rw [text, hnan, hinf, hne]
  simp only [Bool.false_eq_true, if_false, String.toList_ofList]
  split_ifs <;> rfl

/-- The text of the magnitude is read as the magnitude, and with the sign
before it as the double. -/
theorem exists_literal_text
    (hx : x.toModel.unpack = .finite sign mantissa power hpos) :
    ∃ magnitude, SpellsMagnitude magnitude ((shortest x).text printed) ∧
      magnitude.value? = some (shortest x).value ∧ magnitude.toFloat = x.abs := by
  obtain ⟨magnitude, hspells, hvalue, -⟩ := (shortest_spec hx).1.exists_text
  exact ⟨magnitude, hspells, hvalue,
    (Magnitude.roundsTo_toFloat hvalue).unique (roundsTo_abs hx)⟩

end Finite

/-! ## Infinite doubles -/

theorem leadingNumber_infinite {x : Float} (hinf : x.isInf = true) :
    leadingNumber (text printed x).toList = x := by
  change x.toModel.unpack.isInf = true at hinf
  obtain ⟨sign, hx⟩ : ∃ sign, x.toModel.unpack = .infinity sign := by
    cases hx : x.toModel.unpack with
    | infinity sign => exact ⟨sign, rfl⟩
    | _ => rw [hx] at hinf; cases hinf
  cases sign with
  | positive =>
      obtain rfl : x = infinite := eq_of_unpack_eq hx
      rfl
  | negative =>
      obtain rfl : x = -infinite := eq_of_unpack_eq hx
      rfl

end NumberedBasic.Decimal
