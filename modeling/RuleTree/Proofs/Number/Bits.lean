import RuleTree.Number.Binary64

/-!
# Floats and their bits

A float is packed from what its bits unpack to, so that its sign and the code of its magnitude
determine it (`Binary64.toFloat_code`).
-/

namespace RuleTree.Binary64

open Float.Model Float.Model.UnpackedFloat

/-! ## The parts of the bits -/

variable {bits : BitVec 64}

theorem toNat_unpackMantissa (bits : BitVec 64) :
    (@unpackMantissa Format.binary64 bits).toNat = bits.toNat % binade := by
  simp [unpackMantissa, binade]

theorem toNat_unpackExponent (bits : BitVec 64) :
    (@unpackExponent Format.binary64 bits).toNat = bits.toNat / binade % 2048 := by
  simp [unpackExponent, binade, Nat.shiftRight_eq_div_pow]

theorem toNat_unpackSign (bits : BitVec 64) :
    (@unpackSign Format.binary64 bits).toNat = bits.toNat / signBit := by
  have bound : bits.toNat < 2 ^ 64 := bits.isLt
  show bits.toNat >>> 63 % 2 = bits.toNat / 2 ^ 63
  rw [Nat.shiftRight_eq_div_pow]
  omega

theorem toBitVec_ofBitVec (sign : BitVec 1) : (Sign.ofBitVec sign).toBitVec = sign := by
  revert sign
  decide

theorem toNat_packComponents (sign : Sign) (exponent : BitVec 11) (mantissa : BitVec 52) :
    (packComponents Format.binary64 sign exponent mantissa).toNat =
      (sign.toBitVec.toNat * 2048 + exponent.toNat) * binade + mantissa.toNat := by
  unfold packComponents
  rw [BitVec.toNat_append, BitVec.toNat_append, ← Nat.shiftLeft_add_eq_or_of_lt mantissa.isLt,
    ← Nat.shiftLeft_add_eq_or_of_lt exponent.isLt, Nat.shiftLeft_eq, Nat.shiftLeft_eq]
  rfl

/-- The parts of the bits make up the bits. -/
theorem packComponents_eq {exponent : BitVec 11} {mantissa : BitVec 52}
    (exponent_eq : @unpackExponent Format.binary64 bits = exponent)
    (mantissa_eq : @unpackMantissa Format.binary64 bits = mantissa) :
    packComponents Format.binary64 (Sign.ofBitVec (@unpackSign Format.binary64 bits)) exponent
      mantissa = bits := by
  apply BitVec.eq_of_toNat_eq
  rw [toNat_packComponents, toBitVec_ofBitVec, ← exponent_eq, ← mantissa_eq, toNat_unpackSign,
    toNat_unpackExponent, toNat_unpackMantissa]
  simp only [signBit, binade]
  omega

/-! ## Packing what was unpacked -/

theorem finite_congr {sign : Sign} {mantissa other : Nat} {exponent scale : Int}
    {positive : 0 < mantissa} (mantissa_eq : mantissa = other) (exponent_eq : exponent = scale) :
    UnpackedFloat.finite sign mantissa exponent positive =
      .finite sign other scale (mantissa_eq ▸ positive) := by
  subst mantissa_eq exponent_eq
  rfl

theorem log2_of_lt {mantissa : Nat} (small : mantissa < binade) : mantissa.log2 + 1 ≠ 53 := by
  by_cases zero : mantissa = 0
  · rw [zero]
    decide
  · have bound : mantissa.log2 < 52 := (Nat.log2_lt zero).mpr small
    omega

theorem log2_of_le {mantissa : Nat} (large : binade ≤ mantissa) (small : mantissa < 2 * binade) :
    mantissa.log2 + 1 = 53 := by
  have positive : mantissa ≠ 0 := by
    rintro rfl
    cases large
  have least : 52 ≤ mantissa.log2 := (Nat.le_log2 positive).mpr large
  have most : mantissa.log2 < 53 := (Nat.log2_lt positive).mpr small
  omega

theorem pack_subnormal (sign : Sign) {mantissa : Nat} (positive : 0 < mantissa)
    (small : mantissa < binade) :
    UnpackedFloat.pack Format.binary64 (.finite sign mantissa (-1074) positive) =
      packComponents Format.binary64 sign 0 (BitVec.ofNat 52 mantissa) := by
  have log := log2_of_lt small
  unfold UnpackedFloat.pack
  rw [if_neg (by decide)]
  exact if_neg log

theorem pack_normal (sign : Sign) {mantissa exponent : Nat} (positive : 0 < mantissa)
    (large : binade ≤ mantissa) (small : mantissa < 2 * binade) (finite : exponent < 2047) :
    UnpackedFloat.pack Format.binary64 (.finite sign mantissa (exponent - 1075) positive) =
      packComponents Format.binary64 sign (BitVec.ofNat 11 exponent)
        (BitVec.ofNat 52 mantissa) := by
  have log := log2_of_le large small
  have biased : ((exponent : Int) - 1075 + ((Format.binary64.exponentBias : Nat) : Int) +
      ((Format.binary64.mantissaBitsWithoutImplicit : Nat) : Int)).toNat = exponent := by
    show ((exponent : Int) - 1075 + 1023 + 52).toNat = exponent
    omega
  unfold UnpackedFloat.pack
  simp only [biased]
  rw [if_neg (by show ¬2048 ≤ exponent + 1; omega)]
  exact if_pos log

theorem pack_unpack (valid : Format.binary64.Valid bits) :
    UnpackedFloat.pack Format.binary64 (UnpackedFloat.unpack Format.binary64 bits) = bits := by
  have exponent_lt := (@unpackExponent Format.binary64 bits).isLt
  have mantissa_lt := (@unpackMantissa Format.binary64 bits).isLt
  unfold UnpackedFloat.unpack
  dsimp only
  by_cases full : @unpackExponent Format.binary64 bits = -1#_
  · rw [if_pos full]
    by_cases empty : @unpackMantissa Format.binary64 bits = 0#_
    · rw [if_pos empty]
      exact packComponents_eq full empty
    · rw [if_neg empty]
      exact (valid.eq_packedNaN full empty).symm
  · rw [if_neg full]
    by_cases zero : @unpackExponent Format.binary64 bits = 0#_
    · rw [if_pos zero]
      by_cases empty : @unpackMantissa Format.binary64 bits = 0#_
      · rw [dif_pos empty]
        exact packComponents_eq zero empty
      · rw [dif_neg empty]
        have exponent_eq : ((@unpackExponent Format.binary64 bits).toNat : Int) -
            (((Format.binary64.exponentBias : Nat) : Int) +
              ((Format.binary64.mantissaBitsWithoutImplicit : Nat) : Int)) + 1 = -1074 := by
          rw [zero]
          rfl
        rw [finite_congr rfl exponent_eq, pack_subnormal _ _ mantissa_lt]
        exact packComponents_eq zero (by simp)
    · rw [if_neg zero]
      have finite : (@unpackExponent Format.binary64 bits).toNat < 2047 := by
        have different : (@unpackExponent Format.binary64 bits).toNat ≠ 2047 := fun last =>
          full (BitVec.eq_of_toNat_eq last)
        have bound : (@unpackExponent Format.binary64 bits).toNat < 2048 := exponent_lt
        omega
      have implicit : (1#1 ++ @unpackMantissa Format.binary64 bits).toNat =
          binade + (@unpackMantissa Format.binary64 bits).toNat := by
        rw [BitVec.toNat_append, ← Nat.shiftLeft_add_eq_or_of_lt mantissa_lt]
        rfl
      have small : (@unpackMantissa Format.binary64 bits).toNat < binade := mantissa_lt
      have packed := @pack_normal (Sign.ofBitVec (@unpackSign Format.binary64 bits))
        (binade + (@unpackMantissa Format.binary64 bits).toNat)
        (@unpackExponent Format.binary64 bits).toNat (by simp only [binade]; omega) (by omega)
        (by omega) finite
      have dropped : BitVec.ofNat 52 (binade + (@unpackMantissa Format.binary64 bits).toNat) =
          @unpackMantissa Format.binary64 bits := by
        apply BitVec.eq_of_toNat_eq
        rw [BitVec.toNat_ofNat]
        show (binade + _) % binade = _
        rw [Nat.add_mod_left, Nat.mod_eq_of_lt small]
      rw [dropped, BitVec.ofNat_toNat] at packed
      rw [finite_congr implicit rfl]
      exact packed.trans (packComponents_eq (BitVec.setWidth_eq _).symm rfl)

theorem model_ext {first second : Float.Model} (same : first.toBits = second.toBits) :
    first = second := by
  cases first
  cases second
  cases same
  rfl

/-- The float with the bits of a float is this float. -/
theorem ofBits_toBits (x : Float) : Float.ofBits x.toBits = x := by
  rcases x with ⟨⟨bits, valid⟩⟩
  have packed := pack_unpack valid
  exact congrArg Float.ofModel (model_ext (congrArg UInt64.ofBitVec packed))

/-- A float is the one with its sign and the code of its magnitude. -/
theorem toFloat_code (x : Float) : toFloat (isNegative x) (code x) = x := by
  have bound := x.toBits.toNat_lt
  have bits : (if isNegative x then signBit + code x else code x) = x.toBits.toNat := by
    unfold isNegative code signBit
    by_cases negative : 0x8000000000000000 ≤ x.toBits.toNat
    · simp only [negative, decide_true, if_true]
      omega
    · simp only [negative, decide_false]
      exact Nat.mod_eq_of_lt (by omega)
  unfold toFloat
  rw [bits, UInt64.ofNat_toNat, ofBits_toBits]

end RuleTree.Binary64
