import Mathlib
import NumberedBasic.Decimal.Shortest
import NumberedBasic.Proofs.Value.Rounding

/-!
# Doubles and their bits

A double is a sign, an exponent field of eleven bits and a fraction of
fifty-two.  Taking a double apart and putting it together again changes
nothing, and a magnitude that is put together can be taken apart again unless
it is too large, when the double is infinite.
-/

namespace NumberedBasic.Double

open Float.Model UnpackedFloat

/-- What the fields of a double stand for. -/
def decode (sign : Sign) (field fraction : ℕ) : UnpackedFloat :=
  if field = 2047 then
    if fraction = 0 then .infinity sign else .notANumber
  else if field = 0 then assemble sign fraction (-1074)
  else assemble sign (2 ^ 52 + fraction) (field - 1075)

abbrev Bits : Type := BitVec Format.binary64.numBits

def exponentField (bits : Bits) : ℕ := (unpackExponent bits).toNat

def fractionField (bits : Bits) : ℕ := (unpackMantissa bits).toNat

def signField (bits : Bits) : Sign := .ofBitVec (unpackSign bits)

theorem exponentField_lt (bits : Bits) : exponentField bits < 2048 :=
  (unpackExponent bits).isLt

theorem fractionField_lt (bits : Bits) : fractionField bits < 2 ^ 52 :=
  (unpackMantissa bits).isLt

theorem unpack_eq_decode (bits : Bits) :
    UnpackedFloat.unpack .binary64 bits =
      decode (signField bits) (exponentField bits) (fractionField bits) := by
  have hones : unpackExponent bits = -1#11 ↔ exponentField bits = 2047 :=
    BitVec.toNat_inj.symm
  have hzeros : unpackExponent bits = 0#11 ↔ exponentField bits = 0 :=
    BitVec.toNat_inj.symm
  have hnone : unpackMantissa bits = 0#52 ↔ fractionField bits = 0 :=
    BitVec.toNat_inj.symm
  have hlead : (1#1 ++ unpackMantissa bits).toNat =
      2 ^ 52 + fractionField bits := by
    rw [BitVec.toNat_append,
      ← Nat.shiftLeft_add_eq_or_of_lt (unpackMantissa bits).isLt]
    rfl
  rw [UnpackedFloat.unpack, decode]
  by_cases hall : exponentField bits = 2047
  · by_cases hfraction : fractionField bits = 0
    · simp only [if_pos hall, if_pos hfraction, if_pos (hones.mpr hall),
        if_pos (hnone.mpr hfraction), signField]
    · simp only [if_pos hall, if_neg hfraction, if_pos (hones.mpr hall),
        if_neg (mt hnone.mp hfraction)]
  · simp only [if_neg hall, if_neg (mt hones.mp hall)]
    by_cases hexponent : exponentField bits = 0
    · simp only [if_pos hexponent, if_pos (hzeros.mpr hexponent)]
      by_cases hfraction : fractionField bits = 0
      · rw [dif_pos (hnone.mpr hfraction), assemble, dif_pos hfraction]
        rfl
      · rw [dif_neg (mt hnone.mp hfraction), assemble, dif_neg hfraction]
        change UnpackedFloat.finite _ _ (((exponentField bits : ℕ) : ℤ) - _ + 1)
          _ = _
        rw [hexponent]
        rfl
    · simp only [if_neg hexponent, if_neg (mt hzeros.mp hexponent), hlead]
      rw [assemble, dif_neg (by omega)]
      rfl

theorem signField_packComponents (sign : Sign) (exponent : BitVec 11)
    (fraction : BitVec 52) :
    signField (packComponents .binary64 sign exponent fraction) = sign := by
  have hbit : unpackSign (packComponents .binary64 sign exponent fraction) =
      sign.toBitVec := by
    change (sign.toBitVec ++ exponent ++ fraction).extractLsb' 63 1 = _
    rw [BitVec.extractLsb'_append_eq_of_le (by decide),
      BitVec.extractLsb'_append_eq_of_le (by decide)]
    exact BitVec.extractLsb'_eq_self
  rw [signField, hbit]
  cases sign <;> rfl

/-- A double is determined by its fields. -/
theorem packComponents_unpack (bits : Bits) :
    packComponents .binary64 (signField bits) (unpackExponent bits)
      (unpackMantissa bits) = bits := by
  have hsign : ∀ sign : BitVec 1, (Sign.ofBitVec sign).toBitVec = sign := by
    decide
  rw [packComponents, signField, hsign]
  simp only [unpackSign, unpackExponent, unpackMantissa, BitVec.extractLsb]
  ext i hi
  grind

theorem unpack_packComponents (sign : Sign) (exponent : BitVec 11)
    (fraction : BitVec 52) :
    UnpackedFloat.unpack .binary64
        (packComponents .binary64 sign exponent fraction) =
      decode sign exponent.toNat fraction.toNat := by
  rw [unpack_eq_decode, signField_packComponents, exponentField, fractionField,
    unpackExponent_packComponents, unpackMantissa_packComponents]

/-! ## Putting together -/

/-- The fields of a magnitude that is not too large. -/
theorem pack_assemble (sign : Sign) {mantissa : ℕ} {power : ℤ}
    (h : Canonical mantissa power) (hpower : power ≤ 971) :
    UnpackedFloat.pack .binary64 (assemble sign mantissa power) =
      packComponents .binary64 sign
        (if 2 ^ 52 ≤ mantissa then .ofNat 11 (power + 1075).toNat else 0)
        (.ofNat 52 mantissa) := by
  obtain ⟨hbits, hleast, hnormal⟩ := h
  rw [assemble]
  split_ifs with hzero hlead hlead
  · omega
  · subst hzero
    rfl
  · have hlog : mantissa.log2 = 52 :=
      (Nat.log2_eq_iff hzero).mpr ⟨hlead, hbits⟩
    have hroom : ¬2048 ≤ (power + 1075).toNat + 1 := by omega
    have hfield : (power + Format.binary64.exponentBias +
        Format.binary64.mantissaBitsWithoutImplicit).toNat =
          (power + 1075).toNat := by
      rw [add_assoc]
      rfl
    simp only [UnpackedFloat.pack, hfield, hlog]
    rw [if_neg hroom]
    rfl
  · obtain rfl : power = -1074 := hnormal.resolve_right hlead
    have hlog : mantissa.log2 < 52 :=
      (Nat.log2_lt hzero).mpr (Nat.lt_of_not_le hlead)
    have hshort : mantissa.log2 + 1 ≠ Format.binary64.mantissaBits := by
      change mantissa.log2 + 1 ≠ 53
      omega
    simp only [UnpackedFloat.pack]
    rw [if_neg (by decide), if_neg hshort]
    rfl

/-- A magnitude with its sign survives being put together. -/
theorem unpack_pack_assemble (sign : Sign) {mantissa : ℕ} {power : ℤ}
    (h : Canonical mantissa power) (hpower : power ≤ 971) :
    UnpackedFloat.unpack .binary64
        (UnpackedFloat.pack .binary64 (assemble sign mantissa power)) =
      assemble sign mantissa power := by
  obtain ⟨hbits, hleast, hnormal⟩ := h
  rw [pack_assemble sign ⟨hbits, hleast, hnormal⟩ hpower,
    unpack_packComponents, BitVec.toNat_ofNat]
  by_cases hlead : 2 ^ 52 ≤ mantissa
  · have hfield : (power + 1075).toNat % 2 ^ 11 = (power + 1075).toNat := by
      omega
    have hmantissa : 2 ^ 52 + mantissa % 2 ^ 52 = mantissa := by omega
    rw [if_pos hlead, BitVec.toNat_ofNat, hfield, decode, if_neg (by omega),
      if_neg (by omega), hmantissa]
    congr 1
    omega
  · rw [if_neg hlead, hnormal.resolve_right hlead,
      Nat.mod_eq_of_lt (Nat.lt_of_not_le hlead)]
    rfl

/-- Beyond the largest exponent a double is infinite. -/
theorem unpack_pack_overflow (sign : Sign) {mantissa : ℕ} {power : ℤ}
    (h : Canonical mantissa power) (hpower : 971 < power) :
    UnpackedFloat.unpack .binary64
        (UnpackedFloat.pack .binary64 (assemble sign mantissa power)) =
      .infinity sign := by
  have hlead : 2 ^ 52 ≤ mantissa := h.normal.resolve_left (by omega)
  have hfield : 2048 ≤ (power + Format.binary64.exponentBias +
      Format.binary64.mantissaBitsWithoutImplicit).toNat + 1 := by
    change 2048 ≤ (power + 1023 + 52).toNat + 1
    omega
  rw [assemble, dif_neg (by omega)]
  simp only [UnpackedFloat.pack]
  rw [if_pos hfield]
  cases sign <;> rfl

/-! ## Taking apart -/

/-- What is found in a double is a magnitude, unless the double is infinite or
undefined. -/
theorem canonical_of_unpack {bits : Bits} {sign : Sign} {mantissa : ℕ}
    {power : ℤ} {hpos : 0 < mantissa}
    (h : UnpackedFloat.unpack .binary64 bits =
      .finite sign mantissa power hpos) :
    Canonical mantissa power ∧ power ≤ 971 := by
  have hfield := exponentField_lt bits
  have hfraction := fractionField_lt bits
  rw [unpack_eq_decode, decode] at h
  split_ifs at h with hones hnone hzero
  · rw [assemble] at h
    split_ifs at h
    cases h
    exact ⟨⟨by omega, le_rfl, .inl rfl⟩, by omega⟩
  · rw [assemble, dif_neg (by omega)] at h
    cases h
    exact ⟨⟨by omega, by omega, .inr (by omega)⟩, by omega⟩

theorem pack_unpack_of_valid {bits : Bits} (hvalid : Format.binary64.Valid bits) :
    UnpackedFloat.pack .binary64 (UnpackedFloat.unpack .binary64 bits) =
      bits := by
  have hfields := packComponents_unpack bits
  have hfield := exponentField_lt bits
  have hfraction := fractionField_lt bits
  rw [unpack_eq_decode, decode]
  split_ifs with hones hnone hzero
  · have hexponent : unpackExponent bits = -1#11 := BitVec.eq_of_toNat_eq hones
    have hmantissa : unpackMantissa bits = 0#52 := BitVec.eq_of_toNat_eq hnone
    rw [hexponent, hmantissa] at hfields
    exact hfields
  · have hexponent : unpackExponent bits = -1#11 := BitVec.eq_of_toNat_eq hones
    have hmantissa : unpackMantissa bits ≠ 0#52 :=
      fun h => hnone (congrArg BitVec.toNat h)
    exact (hvalid.eq_packedNaN hexponent hmantissa).symm
  · have hexponent : unpackExponent bits = 0#11 := BitVec.eq_of_toNat_eq hzero
    rw [pack_assemble _ ⟨by omega, le_rfl, .inl rfl⟩ (by omega),
      if_neg (by omega), fractionField, BitVec.ofNat_toNat, BitVec.setWidth_eq]
    rw [hexponent] at hfields
    exact hfields
  · have hsum : ((exponentField bits : ℤ) - 1075 + 1075).toNat =
        exponentField bits := by omega
    have hmantissa : BitVec.ofNat 52 (2 ^ 52 + fractionField bits) =
        unpackMantissa bits := by
      apply BitVec.eq_of_toNat_eq
      rw [BitVec.toNat_ofNat, Nat.add_mod_left]
      exact Nat.mod_eq_of_lt hfraction
    rw [pack_assemble _ ⟨by omega, by omega, .inr (by omega)⟩ (by omega),
      if_pos (by omega), hsum, hmantissa, exponentField, BitVec.ofNat_toNat,
      BitVec.setWidth_eq]
    exact hfields

/-- A double that is taken apart and put together again is the same. -/
theorem pack_unpack (x : Float.Model) : Float.Model.pack x.unpack = x := by
  obtain ⟨bits, hvalid⟩ := x
  have hbits := pack_unpack_of_valid hvalid
  rw [Float.Model.pack, Float.Model.unpack]
  congr

/-- Two doubles are the same if what they stand for is. -/
theorem eq_of_unpack_eq {x y : Float}
    (h : x.toModel.unpack = y.toModel.unpack) : x = y := by
  have hmodel : x.toModel = y.toModel := by
    rw [← pack_unpack x.toModel, h, pack_unpack]
  exact congrArg Float.ofModel hmodel

/-- A magnitude that was found in a double can be put together with either
sign. -/
theorem unpack_pack_of_unpack {x : Float} {sign : Sign} {mantissa : ℕ}
    {power : ℤ} {hpos : 0 < mantissa}
    (hx : x.toModel.unpack = .finite sign mantissa power hpos) (sign' : Sign) :
    UnpackedFloat.unpack .binary64 (UnpackedFloat.pack .binary64
      (.finite sign' mantissa power hpos)) =
        .finite sign' mantissa power hpos := by
  obtain ⟨hcanonical, hpower⟩ := canonical_of_unpack hx
  have hassemble : assemble sign' mantissa power =
      .finite sign' mantissa power hpos := dif_neg hpos.ne'
  rw [← hassemble]
  exact unpack_pack_assemble sign' hcanonical hpower

/-- A change of sign changes nothing else. -/
theorem unpack_neg (x : Float) :
    (-x).toModel.unpack = x.toModel.unpack.neg := by
  change UnpackedFloat.unpack .binary64
    (UnpackedFloat.pack .binary64 x.toModel.unpack.neg) = _
  cases hx : x.toModel.unpack with
  | notANumber => rfl
  | infinity sign => cases sign <;> rfl
  | zero sign => cases sign <;> rfl
  | finite sign mantissa power hpos => exact unpack_pack_of_unpack hx (-sign)

/-- An absolute value has the magnitude of the number. -/
theorem unpack_abs {x : Float} {sign : Sign} {mantissa : ℕ} {power : ℤ}
    {hpos : 0 < mantissa}
    (hx : x.toModel.unpack = .finite sign mantissa power hpos) :
    x.abs.toModel.unpack = .finite .positive mantissa power hpos := by
  change UnpackedFloat.unpack .binary64
    (UnpackedFloat.pack .binary64 x.toModel.unpack.abs) = _
  rw [hx]
  exact unpack_pack_of_unpack hx .positive

theorem fractionField_eq (bits : Bits) :
    fractionField bits = bits.toNat % 2 ^ 52 := by
  rw [fractionField, unpackMantissa, BitVec.toNat_cast,
    BitVec.extractLsb_toNat]
  rfl

theorem exponentField_eq (bits : Bits) :
    exponentField bits = bits.toNat / 2 ^ 52 % 2048 := by
  rw [exponentField, unpackExponent, BitVec.toNat_cast,
    BitVec.extractLsb_toNat, Nat.shiftRight_eq_div_pow]
  rfl

/-- The program finds the same magnitude in the bits of a double. -/
theorem ofBits_toBits {x : Float} {sign : Sign} {mantissa : ℕ} {power : ℤ}
    {hpos : 0 < mantissa}
    (h : x.toModel.unpack = .finite sign mantissa power hpos) :
    Decimal.Binary.ofBits x.toBits =
      ⟨mantissa, power, decide (mantissa = 2 ^ 52 ∧ -1074 < power)⟩ := by
  obtain ⟨bits, hbits⟩ : ∃ bits : Bits, bits = x.toBits.toBitVec := ⟨_, rfl⟩
  have hofBits : Decimal.Binary.ofBits x.toBits =
      if exponentField bits = 0 then ⟨fractionField bits, -1074, false⟩
      else ⟨2 ^ 52 + fractionField bits, (exponentField bits : ℤ) - 1075,
        decide (fractionField bits = 0 ∧ 1 < exponentField bits)⟩ := by
    rw [fractionField_eq, exponentField_eq, hbits]
    rfl
  change UnpackedFloat.unpack .binary64 x.toBits.toBitVec = _ at h
  rw [← hbits, unpack_eq_decode, decode] at h
  have hfraction := fractionField_lt bits
  rw [hofBits]
  split_ifs at h with hones hnone hzero
  · rw [assemble] at h
    split_ifs at h
    cases h
    rw [if_pos hzero]
    congr 1
    rw [eq_comm, decide_eq_false_iff_not]
    omega
  · rw [assemble, dif_neg (by omega)] at h
    cases h
    rw [if_neg hzero]
    congr 1
    rw [decide_eq_decide]
    omega

end NumberedBasic.Double
