import RuleTree.Number.Word
import RuleTree.Proofs.Number.Bits
import RuleTree.Proofs.Number.Rounding
import Mathlib

/-!
# The order of floats

Finite floats are in the order of the codes of their magnitudes, with their signs
(`Binary64.toFloat_le_iff`), and rounding keeps the order of numbers (`Binary64.nearest_mono`).  So
the floats nearest to integers are in the order of the integers, as far as they differ; up to `2^53`
different integers have different floats (`Binary64.ofInt_injective`).
-/

namespace RuleTree.Binary64

/-! ## Rounding keeps the order -/

namespace Ratio

variable {r s : Ratio}

/-- Rounding moves a number by at most one half. -/
theorem round_bounds (positive : 0 < r.den) :
    (r.round : ℚ) - 1 / 2 ≤ r.value ∧ r.value ≤ r.round + 1 / 2 := by
  have den_pos : (0 : ℚ) < r.den := by exact_mod_cast positive
  have whole := Nat.div_add_mod r.num r.den
  have rest_lt := Nat.mod_lt r.num positive
  have bounds : 2 * (r.den * r.round) ≤ 2 * r.num + r.den ∧
      2 * r.num ≤ 2 * (r.den * r.round) + r.den := by
    unfold round
    simp only
    split
    · omega
    · split
      · rw [Nat.mul_add]
        omega
      · rw [Nat.mul_add]
        rcases Nat.mod_two_eq_zero_or_one (r.num / r.den) with even | odd
        · rw [even]
          omega
        · rw [odd]
          omega
  have lower : (2 : ℚ) * (r.den * r.round) ≤ 2 * r.num + r.den := by exact_mod_cast bounds.1
  have upper : (2 : ℚ) * r.num ≤ 2 * (r.den * r.round) + r.den := by exact_mod_cast bounds.2
  unfold value
  constructor
  · rw [le_div_iff₀ den_pos]
    linarith
  · rw [div_le_iff₀ den_pos]
    linarith

theorem round_mono (first : 0 < r.den) (second : 0 < s.den) (le : r.value ≤ s.value) :
    r.round ≤ s.round := by
  by_contra greater
  -- Numbers in this order round the other way round only at one half, where they are equal.
  have apart : (s.round : ℚ) + 1 ≤ r.round := by exact_mod_cast Nat.lt_of_not_le greater
  have lower := (round_bounds first).1
  have upper := (round_bounds second).2
  have same : r.value = s.value := by linarith
  exact greater (round_congr first second same).le

end Ratio

variable {r s : Ratio}

/-- The mantissa has at most 53 bits, or it carries; it has all of them unless the exponent is the
least one. -/
theorem round_lastBit (num : 0 < r.num) (den : 0 < r.den) :
    (r.shift (-lastBit r)).round ≤ 2 * binade ∧
      (-1074 < lastBit r → binade ≤ (r.shift (-lastBit r)).round) := by
  have two : (2 : ℚ) ≠ 0 := by norm_num
  have positive := Ratio.value_pos num den
  have last := lastBit_eq num den
  have scaled_den := Ratio.den_shift den (-lastBit r)
  have power : (0 : ℚ) < 2 ^ lastBit r := by positivity
  have rounds (bound : Nat) : (⟨bound, 1⟩ : Ratio).round = bound :=
    Ratio.round_natCast Nat.one_pos (by simp [Ratio.value])
  constructor
  · have below : r.value ≤ 2 ^ (lastBit r + 53) := by
      apply le_of_lt
      have fits : r.value < ((2 : Nat) : ℚ) ^ (lastBit r + 53) := by
        rw [Int.lt_zpow_iff_log_lt (by norm_num : 1 < 2) positive]
        omega
      exact_mod_cast fits
    rw [← rounds (2 * binade)]
    apply Ratio.round_mono scaled_den Nat.one_pos
    rw [Ratio.value_shift, zpow_neg, mul_inv_le_iff₀ power]
    rw [add_comm, zpow_add₀ two] at below
    norm_num [Ratio.value, binade] at below ⊢
    exact below
  · intro above
    have least : (2 : ℚ) ^ (lastBit r + 52) ≤ r.value := by
      have reaches : ((2 : Nat) : ℚ) ^ (lastBit r + 52) ≤ r.value := by
        rw [Int.zpow_le_iff_le_log (by norm_num : 1 < 2) positive]
        omega
      exact_mod_cast reaches
    rw [← rounds binade]
    apply Ratio.round_mono Nat.one_pos scaled_den
    rw [Ratio.value_shift, zpow_neg, le_mul_inv_iff₀ power]
    rw [add_comm, zpow_add₀ two] at least
    norm_num [Ratio.value, binade] at least ⊢
    exact least

/-- A smaller number has no larger nearest magnitude. -/
theorem nearest_mono (first : 0 < r.den) (second : 0 < s.den) (le : r.value ≤ s.value) :
    nearest r ≤ nearest s := by
  by_cases zero : r.num = 0
  · simp [nearest, zero]
  · have num : 0 < r.num := Nat.pos_of_ne_zero zero
    have positive := Ratio.value_pos num first
    have num' : 0 < s.num := by
      apply Nat.pos_of_ne_zero
      intro none
      rw [(num_eq_zero_iff second).mp none] at le
      exact absurd positive (not_lt.mpr le)
    have last := lastBit_eq num first
    have last' := lastBit_eq num' second
    have logs : Int.log 2 r.value ≤ Int.log 2 s.value := Int.log_mono_right positive le
    have most := (round_lastBit num first).1
    have least := (round_lastBit num' second).2
    unfold nearest
    rw [if_neg zero, if_neg (Nat.ne_of_gt num')]
    apply min_le_min_left
    by_cases same : lastBit r = lastBit s
    · rw [same]
      apply Nat.add_le_add_left
      apply Ratio.round_mono (Ratio.den_shift first _) (Ratio.den_shift second _)
      rw [Ratio.value_shift, Ratio.value_shift]
      gcongr
    · -- The larger exponent is worth more than a full mantissa.
      have full := least (by omega)
      have steps : (lastBit r + 1074).toNat + 1 ≤ (lastBit s + 1074).toNat := by omega
      have scaled := Nat.mul_le_mul_right binade steps
      rw [Nat.add_mul] at scaled
      omega

/-! ## Codes and signs -/

/-- The code of a magnitude with a sign. -/
def signed (negative : Bool) (code : Nat) : Int := if negative then -code else code

/-- A larger code has a larger exponent, or the same one and a larger mantissa. -/
theorem dyadic_lt {code code' : Nat} (less : code < code') :
    (dyadic code).exponent < (dyadic code').exponent ∨
      (dyadic code).exponent = (dyadic code').exponent ∧
        (dyadic code).mantissa < (dyadic code').mantissa := by
  have quotients := Nat.div_le_div_right (c := binade) (Nat.le_of_lt less)
  have whole := Nat.div_add_mod code binade
  have whole' := Nat.div_add_mod code' binade
  unfold dyadic
  by_cases small : code < binade
  · by_cases small' : code' < binade
    · simp [small, small', less]
    · rw [if_pos small, if_neg small']
      simp only [Int.ofNat_eq_natCast]
      unfold binade at *
      omega
  · rw [if_neg small, if_neg (by omega)]
    simp only [Int.ofNat_eq_natCast]
    unfold binade at *
    omega

theorem compare_dyadic (code code' : Nat) :
    (compare (dyadic code).exponent (dyadic code').exponent).then
      (compare (dyadic code).mantissa (dyadic code').mantissa) = compare code code' := by
  rcases Nat.lt_trichotomy code code' with less | rfl | greater
  · rw [compare_lt_iff_lt.mpr less]
    rcases dyadic_lt less with exponents | ⟨exponents, mantissas⟩
    · rw [compare_lt_iff_lt.mpr exponents]
      rfl
    · rw [compare_eq_iff_eq.mpr exponents, compare_lt_iff_lt.mpr mantissas]
      rfl
  · simp
  · rw [compare_gt_iff_gt.mpr greater]
    rcases dyadic_lt greater with exponents | ⟨exponents, mantissas⟩
    · rw [compare_gt_iff_gt.mpr exponents]
      rfl
    · rw [compare_eq_iff_eq.mpr exponents.symm, compare_gt_iff_gt.mpr mantissas]
      rfl

theorem mantissa_pos {code : Nat} (positive : code ≠ 0) : 0 < (dyadic code).mantissa := by
  unfold dyadic binade
  split <;> simp only <;> omega

section Unpacked

open Float.Model Float.Model.UnpackedFloat

/-- The float with a sign and the code of a finite magnitude, in parts. -/
def parts (negative : Bool) (code : Nat) : UnpackedFloat :=
  if positive : code ≠ 0 then
    .finite (if negative then .negative else .positive) (dyadic code).mantissa
      (dyadic code).exponent (mantissa_pos positive)
  else .zero (if negative then .negative else .positive)

theorem le_parts (negative negative' : Bool) (code code' : Nat) :
    (parts negative code).le (parts negative' code') = true ↔
      signed negative code ≤ signed negative' code' := by
  have compared := compare_dyadic code code'
  unfold parts signed UnpackedFloat.le
  by_cases zero : code = 0
  · by_cases zero' : code' = 0
    · simp [zero, zero', UnpackedFloat.compare]
    · cases negative' <;> simp [zero, zero', UnpackedFloat.compare]
  · by_cases zero' : code' = 0
    · cases negative <;> simp [zero, zero', UnpackedFloat.compare]
    · cases negative <;> cases negative' <;>
        simp [zero, zero', UnpackedFloat.compare, compared]
      · exact Nat.isLE_compare
      · omega
      · exact Nat.isGE_compare

/-- The bits of a float with a sign and the code of a finite magnitude, in their three fields. -/
theorem fields_ofNat (negative : Bool) {code : Nat} (finite : code < infinity) :
    let bits := BitVec.ofNat 64 (if negative then signBit + code else code)
    (@unpackMantissa Format.binary64 bits).toNat = code % binade ∧
      (@unpackExponent Format.binary64 bits).toNat = code / binade ∧
      Sign.ofBitVec (@unpackSign Format.binary64 bits) =
        if negative then .negative else .positive := by
  intro bits
  have value : bits.toNat = if negative then signBit + code else code := by
    rw [BitVec.toNat_ofNat]
    apply Nat.mod_eq_of_lt
    unfold infinity at finite
    unfold signBit
    split <;> omega
  refine ⟨?_, ?_, ?_⟩
  · rw [toNat_unpackMantissa, value]
    unfold signBit binade
    split <;> omega
  · rw [toNat_unpackExponent, value]
    unfold infinity at finite
    unfold signBit binade
    split <;> omega
  · have bit : @unpackSign Format.binary64 bits = if negative then 1#1 else 0#1 := by
      apply BitVec.eq_of_toNat_eq
      rw [toNat_unpackSign, value]
      unfold infinity at finite
      unfold signBit
      cases negative
      · simp only [Bool.false_eq_true, if_false]
        show _ = 0
        omega
      · simp only [if_true]
        show _ = 1
        omega
    rw [bit]
    cases negative <;> rfl

/-- Codes below infinity are those of numbers. -/
theorem unpack_ofNat (negative : Bool) {code : Nat} (finite : code < infinity) :
    UnpackedFloat.unpack Format.binary64
      (BitVec.ofNat 64 (if negative then signBit + code else code)) = parts negative code := by
  rcases fields_ofNat negative finite with ⟨mantissa, exponent, sign⟩
  generalize BitVec.ofNat 64 (if negative then signBit + code else code) = bits at *
  have exponent_lt : code / binade < 2047 := Nat.div_lt_of_lt_mul finite
  unfold UnpackedFloat.unpack
  dsimp only
  rw [if_neg, sign]
  · by_cases zero : @unpackExponent Format.binary64 bits = 0#_
    · rw [if_pos zero]
      have small : code < binade := by
        rw [zero] at exponent
        exact (Nat.div_eq_zero_iff_lt (by decide)).mp exponent.symm
      have value : dyadic code = ⟨code, -1074⟩ := if_pos small
      rw [Nat.mod_eq_of_lt small] at mantissa
      by_cases empty : code = 0
      · have none : @unpackMantissa Format.binary64 bits = 0#_ :=
          BitVec.eq_of_toNat_eq (by rw [mantissa, empty]; rfl)
        rw [dif_pos none]
        simp [parts, empty]
      · have some : @unpackMantissa Format.binary64 bits ≠ 0#_ := by
          intro none
          rw [none] at mantissa
          exact empty mantissa.symm
        rw [dif_neg some, parts, dif_pos empty]
        apply finite_congr
        · rw [value, mantissa]
        · rw [value, zero]
          rfl
    · rw [if_neg zero]
      have large : ¬code < binade := by
        intro small
        apply zero
        apply BitVec.eq_of_toNat_eq
        rw [exponent, Nat.div_eq_of_lt small]
        rfl
      have value : dyadic code = ⟨binade + code % binade, Int.ofNat (code / binade) - 1075⟩ :=
        if_neg large
      have positive : code ≠ 0 := by
        rintro rfl
        exact large (by decide)
      have implicit : (1#1 ++ @unpackMantissa Format.binary64 bits).toNat =
          binade + code % binade := by
        rw [BitVec.toNat_append, ← Nat.shiftLeft_add_eq_or_of_lt (BitVec.isLt _), mantissa]
        rfl
      rw [parts, dif_pos positive]
      apply finite_congr
      · rw [value, implicit]
      · rw [value, exponent]
        rfl
  · -- All bits of the exponent are set for infinity and beyond only.
    intro full
    rw [full] at exponent
    exact absurd exponent_lt (not_lt.mpr (exponent ▸ by decide))

/-- The parts of a float below infinity. -/
theorem unpack_toFloat (negative : Bool) {code : Nat} (finite : code < infinity) :
    (toFloat negative code).toModel.unpack = parts negative code := by
  have whole := unpack_ofNat negative finite
  have valid : Format.binary64.Valid
      (BitVec.ofNat 64 (if negative then signBit + code else code)) := by
    refine ⟨fun full some => ?_⟩
    unfold UnpackedFloat.unpack at whole
    dsimp only at whole
    rw [if_pos full, if_neg some] at whole
    unfold parts at whole
    split at whole <;> cases whole
  have packed := pack_unpack valid
  rw [← whole]
  exact congrArg (UnpackedFloat.unpack Format.binary64) packed

end Unpacked

/-- Floats below infinity are in the order of their codes, with their signs. -/
theorem toFloat_le_iff (negative negative' : Bool) {code code' : Nat} (finite : code < infinity)
    (finite' : code' < infinity) :
    toFloat negative code ≤ toFloat negative' code' ↔
      signed negative code ≤ signed negative' code' := by
  rw [← le_parts, ← unpack_toFloat negative finite, ← unpack_toFloat negative' finite']
  exact decide_eq_true_iff

/-! ## Integers as floats -/

theorem nearest_natCast_mono {k n : Nat} (le : k ≤ n) : nearest ⟨k, 1⟩ ≤ nearest ⟨n, 1⟩ := by
  apply nearest_mono Nat.one_pos Nat.one_pos
  simpa [Ratio.value] using le

theorem nearest_natCast_pos {k : Nat} (positive : 0 < k) : 0 < nearest ⟨k, 1⟩ :=
  calc 0 < nearest ⟨1, 1⟩ := by decide
    _ ≤ nearest ⟨k, 1⟩ := nearest_natCast_mono positive

/-- No integer of 64 bits is rounded to infinity. -/
theorem nearest_natCast_lt {k : Nat} (bound : k ≤ 0x8000000000000000) :
    nearest ⟨k, 1⟩ < infinity :=
  calc nearest ⟨k, 1⟩ ≤ nearest ⟨0x8000000000000000, 1⟩ := nearest_natCast_mono bound
    _ < infinity := by decide

/-- A number with at most 53 bits, shifted to have all of them. -/
theorem mantissa_bounds {k : Nat} (positive : 0 < k) (small : k < 2 * binade) :
    binade ≤ k * 2 ^ (52 - k.log2) ∧ k * 2 ^ (52 - k.log2) < 2 * binade := by
  have bits : k.log2 < 53 := (Nat.log2_lt positive.ne').mpr small
  have total : 2 ^ k.log2 * 2 ^ (52 - k.log2) = binade := by
    rw [← Nat.pow_add, Nat.add_sub_cancel' (by omega)]
    rfl
  constructor
  · rw [← total]
    exact Nat.mul_le_mul_right _ (Nat.log2_self_le positive.ne')
  · rw [← total, ← Nat.mul_assoc, ← Nat.pow_succ']
    exact Nat.mul_lt_mul_of_pos_right Nat.lt_log2_self (Nat.two_pow_pos _)

/-- Numbers with at most 53 bits are not rounded. -/
theorem nearest_natCast {k : Nat} (positive : 0 < k) (small : k < 2 * binade) :
    nearest ⟨k, 1⟩ = (k.log2 + 1022) * binade + k * 2 ^ (52 - k.log2) := by
  have bits : k.log2 < 53 := (Nat.log2_lt positive.ne').mpr small
  rcases mantissa_bounds positive small with ⟨full, short⟩
  let d : Dyadic := ⟨k * 2 ^ (52 - k.log2), (k.log2 : Int) - 52⟩
  have value : (⟨k, 1⟩ : Ratio).value = d.toRatio.value := by
    rw [Dyadic.value_toRatio]
    show (k : ℚ) / (1 : Nat) = ((k * 2 ^ (52 - k.log2) : Nat) : ℚ) * 2 ^ ((k.log2 : Int) - 52)
    have cancel : ((52 - k.log2 : Nat) : Int) + (k.log2 - 52) = 0 := by omega
    rw [Nat.cast_mul, mul_assoc, Nat.cast_pow, Nat.cast_two, ← zpow_natCast,
      ← zpow_add₀ (by norm_num : (2 : ℚ) ≠ 0), cancel]
    simp
  have exponent : (d.exponent + 1074).toNat = k.log2 + 1022 := by
    show ((k.log2 : Int) - 52 + 1074).toNat = k.log2 + 1022
    omega
  rw [nearest_congr Nat.one_pos d.den_toRatio value,
    nearest_toRatio (Nat.lt_of_lt_of_le (by decide) full)
      (by show -1074 ≤ (k.log2 : Int) - 52; omega) short (.inl full), exponent]
  apply min_eq_right
  show (k.log2 + 1022) * binade + k * 2 ^ (52 - k.log2) ≤ infinity
  unfold binade at short ⊢
  unfold infinity
  omega

/-- Numbers up to `2 ^ 53` have different nearest magnitudes. -/
theorem nearest_natCast_strict {k n : Nat} (less : k < n) (small : n ≤ 2 * binade) :
    nearest ⟨k, 1⟩ < nearest ⟨n, 1⟩ := by
  rcases Nat.eq_zero_or_pos k with rfl | positive
  · exact nearest_natCast_pos less
  · rcases Nat.lt_or_eq_of_le small with below | rfl
    · apply lt_of_le_of_ne (nearest_natCast_mono less.le)
      intro same
      rcases mantissa_bounds positive (less.trans below) with ⟨full, short⟩
      rcases mantissa_bounds (positive.trans less) below with ⟨full', short'⟩
      rw [nearest_natCast positive (less.trans below),
        nearest_natCast (positive.trans less) below] at same
      have logs : k.log2 = n.log2 := by
        unfold binade at *
        omega
      rw [logs, Nat.add_left_cancel_iff] at same
      exact less.ne (Nat.eq_of_mul_eq_mul_right (Nat.two_pow_pos _) same)
    · -- The first number with 54 bits is exact as well.
      calc nearest ⟨k, 1⟩ ≤ nearest ⟨2 * binade - 1, 1⟩ := nearest_natCast_mono (by omega)
        _ < nearest ⟨2 * binade, 1⟩ := by decide

/-! ## The floats nearest to integers -/

/-- The code of the float nearest to an integer, with its sign. -/
def key (n : Int) : Int := signed (decide (n < 0)) (nearest ⟨n.natAbs, 1⟩)

theorem key_of_neg {n : Int} (below : n < 0) : key n = -(nearest ⟨n.natAbs, 1⟩ : Int) := by
  simp [key, signed, below]

theorem key_of_nonneg {n : Int} (natural : ¬n < 0) : key n = (nearest ⟨n.natAbs, 1⟩ : Int) := by
  simp [key, signed, natural]

theorem key_neg_iff {n : Int} : key n < 0 ↔ n < 0 := by
  by_cases below : n < 0
  · have positive := nearest_natCast_pos (show 0 < n.natAbs by omega)
    rw [key_of_neg below]
    omega
  · rw [key_of_nonneg below]
    omega

theorem ofInt_le_iff_key {m n : Int} (first : Word.InRange m) (second : Word.InRange n) :
    ofInt m ≤ ofInt n ↔ key m ≤ key n := by
  unfold Word.InRange at first second
  exact toFloat_le_iff _ _ (nearest_natCast_lt (by omega)) (nearest_natCast_lt (by omega))

/-- Integers of one sign are in the order of their magnitudes or against it. -/
theorem key_mono {m n : Int} (le : m ≤ n) : key m ≤ key n := by
  by_cases below : n < 0
  · have codes := nearest_natCast_mono (show n.natAbs ≤ m.natAbs by omega)
    rw [key_of_neg below, key_of_neg (by omega : m < 0)]
    omega
  · by_cases below' : m < 0
    · exact le_of_lt ((key_neg_iff.mpr below').trans_le (not_lt.mp (mt key_neg_iff.mp below)))
    · have codes := nearest_natCast_mono (show m.natAbs ≤ n.natAbs by omega)
      rw [key_of_nonneg below, key_of_nonneg below']
      omega

/-- Up to `2 ^ 53` a smaller integer has a smaller float. -/
theorem key_strict {m n : Int} (less : m < n) (first : m.natAbs ≤ 2 * binade)
    (second : n.natAbs ≤ 2 * binade) : key m < key n := by
  by_cases below : n < 0
  · have codes := nearest_natCast_strict (show n.natAbs < m.natAbs by omega) first
    rw [key_of_neg below, key_of_neg (by omega : m < 0)]
    omega
  · by_cases below' : m < 0
    · exact (key_neg_iff.mpr below').trans_le (not_lt.mp (mt key_neg_iff.mp below))
    · have codes := nearest_natCast_strict (show m.natAbs < n.natAbs by omega) second
      rw [key_of_nonneg below, key_of_nonneg below']
      omega

/-- The code and the sign determine the float. -/
theorem ofInt_congr {m n : Int} (same : key m = key n) : ofInt m = ofInt n := by
  have signs : m < 0 ↔ n < 0 := by rw [← key_neg_iff, same, key_neg_iff]
  have codes : nearest ⟨m.natAbs, 1⟩ = nearest ⟨n.natAbs, 1⟩ := by
    by_cases below : m < 0
    · rw [key_of_neg below, key_of_neg (signs.mp below)] at same
      omega
    · rw [key_of_nonneg below, key_of_nonneg (mt signs.mpr below)] at same
      omega
  simp only [ofInt, signs, codes]

/-- The floats of integers are in the order of the integers, as far as they differ. -/
theorem ofInt_le_iff {m n : Int} (first : Word.InRange m) (second : Word.InRange n) :
    ofInt m ≤ ofInt n ↔ m ≤ n ∨ ofInt m = ofInt n := by
  constructor
  · intro le
    by_cases less : m ≤ n
    · exact .inl less
    · have back := key_mono (show n ≤ m by omega)
      exact .inr (ofInt_congr (le_antisymm ((ofInt_le_iff_key first second).mp le) back))
  · rintro (le | same)
    · exact (ofInt_le_iff_key first second).mpr (key_mono le)
    · rw [same]
      exact (ofInt_le_iff_key second second).mpr le_rfl

/-- Integers up to `2 ^ 53` have different floats. -/
theorem ofInt_injective {m n : Int} (first : m.natAbs ≤ 2 * binade)
    (second : n.natAbs ≤ 2 * binade) (same : ofInt m = ofInt n) : m = n := by
  have ranged {k : Int} (small : k.natAbs ≤ 2 * binade) : Word.InRange k := by
    unfold binade at small
    unfold Word.InRange
    omega
  have forth := (ofInt_le_iff (ranged first) (ranged second)).mpr (.inr same)
  have back := (ofInt_le_iff (ranged second) (ranged first)).mpr (.inr same.symm)
  rw [ofInt_le_iff_key (ranged first) (ranged second)] at forth
  rw [ofInt_le_iff_key (ranged second) (ranged first)] at back
  rcases Int.lt_trichotomy m n with less | equal | greater
  · exact absurd (key_strict less first second) (not_lt.mpr back)
  · exact equal
  · exact absurd (key_strict greater second first) (not_lt.mpr forth)

end RuleTree.Binary64
