import Mathlib.Algebra.Order.Field.Power
import Mathlib.Algebra.Order.Floor.Semifield
import Mathlib.Data.Int.Log
import Mathlib.Data.Rat.Floor
import Mathlib.Tactic.Linarith
import Mathlib.Tactic.NormNum
import Mathlib.Tactic.Positivity
import Mathlib.Tactic.Ring
import RuleTree.Number.Decimal

/-!
# Rounding to binary64

The nearest magnitude depends on the number that a ratio is and not on numerator and denominator
(`Binary64.nearest_congr`), and a number that is a magnitude is its own nearest one
(`Binary64.nearest_dyadic`).
-/

namespace RuleTree.Binary64

/-! ## Ratios as rational numbers -/

namespace Ratio

/-- The number that a ratio is. -/
def value (r : Ratio) : ℚ := r.num / r.den

variable {r s : Ratio}

theorem den_shift (positive : 0 < r.den) (exponent : Int) : 0 < (r.shift exponent).den := by
  cases exponent with
  | ofNat k => exact positive
  | negSucc k => exact Nat.mul_pos positive (Nat.pow_pos (by decide))

theorem den_shiftTen (positive : 0 < r.den) (exponent : Int) : 0 < (r.shiftTen exponent).den := by
  cases exponent with
  | ofNat k => exact positive
  | negSucc k => exact Nat.mul_pos positive (Nat.pow_pos (by decide))

theorem value_shift (r : Ratio) (exponent : Int) :
    (r.shift exponent).value = r.value * (2 : ℚ) ^ exponent := by
  cases exponent with
  | ofNat k =>
      show ((r.num * Nat.pow 2 k : Nat) : ℚ) / r.den = r.num / r.den * 2 ^ (k : Int)
      rw [Nat.pow_eq, zpow_natCast]
      push_cast
      ring
  | negSucc k =>
      show (r.num : ℚ) / (r.den * Nat.pow 2 (k + 1) : Nat) = r.num / r.den * 2 ^ Int.negSucc k
      rw [Nat.pow_eq, zpow_negSucc]
      push_cast
      rw [div_mul_eq_div_div, div_eq_mul_inv (_ / _)]

theorem value_shiftTen (r : Ratio) (exponent : Int) :
    (r.shiftTen exponent).value = r.value * (10 : ℚ) ^ exponent := by
  cases exponent with
  | ofNat k =>
      show ((r.num * Nat.pow 10 k : Nat) : ℚ) / r.den = r.num / r.den * 10 ^ (k : Int)
      rw [Nat.pow_eq, zpow_natCast]
      push_cast
      ring
  | negSucc k =>
      show (r.num : ℚ) / (r.den * Nat.pow 10 (k + 1) : Nat) = r.num / r.den * 10 ^ Int.negSucc k
      rw [Nat.pow_eq, zpow_negSucc]
      push_cast
      rw [div_mul_eq_div_div, div_eq_mul_inv (_ / _)]

theorem floor_eq (r : Ratio) : r.floor = ⌊r.value⌋₊ := (Nat.floor_div_eq_div r.num r.den).symm

theorem value_nonneg (r : Ratio) : 0 ≤ r.value := by
  unfold value
  positivity

theorem value_pos (num : 0 < r.num) (den : 0 < r.den) : 0 < r.value := by
  unfold value
  positivity

theorem value_eq_iff (first : 0 < r.den) (second : 0 < s.den) :
    r.value = s.value ↔ r.num * s.den = s.num * r.den := by
  have r_den : (r.den : ℚ) ≠ 0 := by positivity
  have s_den : (s.den : ℚ) ≠ 0 := by positivity
  unfold value
  rw [div_eq_div_iff r_den s_den]
  exact_mod_cast Iff.rfl

/-- Rounding does not look at how a number is written as a ratio. -/
theorem round_congr (first : 0 < r.den) (second : 0 < s.den) (same : r.value = s.value) :
    r.round = s.round := by
  have quotients : r.num / r.den = s.num / s.den := by
    have floors : r.floor = s.floor := by rw [floor_eq, floor_eq, same]
    exact floors
  have cross := (value_eq_iff first second).mp same
  have rests : r.num % r.den * s.den = s.num % s.den * r.den := by
    have left := congrArg (· * s.den) (Nat.div_add_mod r.num r.den)
    have right := congrArg (· * r.den) (Nat.div_add_mod s.num s.den)
    simp only [Nat.add_mul] at left right
    rw [quotients] at left
    have swap : r.den * (s.num / s.den) * s.den = s.den * (s.num / s.den) * r.den := by ring
    omega
  have below : 2 * (r.num % r.den) < r.den ↔ 2 * (s.num % s.den) < s.den := by
    rw [← Nat.mul_lt_mul_right second, Nat.mul_assoc, rests, ← Nat.mul_assoc,
      Nat.mul_comm r.den s.den, Nat.mul_lt_mul_right first]
  have above : r.den < 2 * (r.num % r.den) ↔ s.den < 2 * (s.num % s.den) := by
    rw [← Nat.mul_lt_mul_right second, Nat.mul_assoc, rests, ← Nat.mul_assoc,
      Nat.mul_comm r.den s.den, Nat.mul_lt_mul_right first]
  unfold round
  simp only [quotients, below, above]

/-- A whole number is rounded to itself. -/
theorem round_natCast (positive : 0 < r.den) {n : Nat} (whole : r.value = n) : r.round = n := by
  have one : (⟨n, 1⟩ : Ratio).value = n := by simp [value]
  rw [round_congr positive Nat.one_pos (whole.trans one.symm)]
  simp [round, Nat.mod_one]

end Ratio

/-! ## The last bit -/

variable {r s : Ratio}

/-- The lengths of numerator and denominator give the binary logarithm up to one. -/
theorem log_bounds (num : 0 < r.num) (den : 0 < r.den) :
    (r.num.log2 : Int) - r.den.log2 - 1 ≤ Int.log 2 r.value ∧
      Int.log 2 r.value ≤ (r.num.log2 : Int) - r.den.log2 := by
  have positive := Ratio.value_pos num den
  have den_pos : (0 : ℚ) < r.den := by exact_mod_cast den
  have num_least : (2 : ℚ) ^ (r.num.log2 : Int) ≤ r.num := by
    rw [zpow_natCast]
    exact_mod_cast Nat.log2_self_le (Nat.ne_of_gt num)
  have num_most : (r.num : ℚ) < 2 ^ ((r.num.log2 : Int) + 1) := by
    exact_mod_cast @Nat.lt_log2_self r.num
  have den_least : (2 : ℚ) ^ (r.den.log2 : Int) ≤ r.den := by
    rw [zpow_natCast]
    exact_mod_cast Nat.log2_self_le (Nat.ne_of_gt den)
  have den_most : (r.den : ℚ) < 2 ^ ((r.den.log2 : Int) + 1) := by
    exact_mod_cast @Nat.lt_log2_self r.den
  have two : (2 : ℚ) ≠ 0 := by norm_num
  constructor
  · apply (Int.zpow_le_iff_le_log (by norm_num : 1 < 2) positive).mp
    rw [Ratio.value, le_div_iff₀ den_pos]
    calc (2 : ℚ) ^ ((r.num.log2 : Int) - r.den.log2 - 1) * r.den
        ≤ 2 ^ ((r.num.log2 : Int) - r.den.log2 - 1) * 2 ^ ((r.den.log2 : Int) + 1) := by
          gcongr
      _ = 2 ^ (r.num.log2 : Int) := by
          rw [← zpow_add₀ two]
          congr 1
          omega
      _ ≤ r.num := num_least
  · apply Int.lt_add_one_iff.mp
    apply (Int.lt_zpow_iff_log_lt (by norm_num : 1 < 2) positive).mp
    rw [Ratio.value, div_lt_iff₀ den_pos]
    calc (r.num : ℚ) < 2 ^ ((r.num.log2 : Int) + 1) := num_most
      _ = 2 ^ ((r.num.log2 : Int) - r.den.log2 + 1) * 2 ^ (r.den.log2 : Int) := by
          rw [← zpow_add₀ two]
          congr 1
          omega
      _ ≤ 2 ^ ((r.num.log2 : Int) - r.den.log2 + 1) * r.den := by
          gcongr

/-- With 53 bits, the last one is 52 places after the first one. -/
theorem lastBit_eq (num : 0 < r.num) (den : 0 < r.den) :
    lastBit r = max (Int.log 2 r.value - 52) (-1074) := by
  have positive := Ratio.value_pos num den
  rcases log_bounds num den with ⟨least, most⟩
  let guess : Int := (r.num.log2 : Int) - r.den.log2 - 53
  have fits : (r.shift (-guess)).floor < 2 * binade ↔ Int.log 2 r.value < guess + 53 := by
    have scaled_nonneg := Ratio.value_nonneg (r.shift (-guess))
    rw [← Int.lt_zpow_iff_log_lt (by norm_num : 1 < 2) positive, Ratio.floor_eq,
      Nat.floor_lt scaled_nonneg, Ratio.value_shift, zpow_neg,
      mul_inv_lt_iff₀ (by positivity : (0 : ℚ) < 2 ^ guess)]
    have split : ((2 : Nat) : ℚ) ^ (guess + 53) = ((2 * binade : Nat) : ℚ) * 2 ^ guess := by
      rw [show guess + 53 = 53 + guess by omega]
      push_cast
      rw [zpow_add₀ (by norm_num : (2 : ℚ) ≠ 0)]
      norm_num [binade]
    rw [split]
  show max (if (r.shift (-guess)).floor < 2 * binade then guess else guess + 1) (-1074) = _
  congr 1
  split
  · rename_i below
    have bound := fits.mp below
    omega
  · rename_i above
    have bound : ¬Int.log 2 r.value < guess + 53 := fun less => above (fits.mpr less)
    omega

/-! ## The nearest magnitude -/

theorem num_eq_zero_iff (den : 0 < r.den) : r.num = 0 ↔ r.value = 0 := by
  have den_ne : (r.den : ℚ) ≠ 0 := by positivity
  simp [Ratio.value, div_eq_zero_iff, den_ne]

/-- The nearest magnitude does not depend on how a number is written as a ratio. -/
theorem nearest_congr (first : 0 < r.den) (second : 0 < s.den) (same : r.value = s.value) :
    nearest r = nearest s := by
  have zero : r.num = 0 ↔ s.num = 0 := by
    rw [num_eq_zero_iff first, num_eq_zero_iff second, same]
  unfold nearest
  by_cases none : r.num = 0
  · rw [if_pos none, if_pos (zero.mp none)]
  · have none' : s.num ≠ 0 := fun num => none (zero.mpr num)
    have last : lastBit r = lastBit s := by
      rw [lastBit_eq (by omega) first, lastBit_eq (by omega) second, same]
    rw [if_neg none, if_neg none', last]
    simp only
    rw [Ratio.round_congr (Ratio.den_shift first _) (Ratio.den_shift second _)]
    rw [Ratio.value_shift, Ratio.value_shift, same]

/-- The number that a dyadic number is. -/
def Dyadic.value (d : Dyadic) : ℚ := d.mantissa * (2 : ℚ) ^ d.exponent

theorem Dyadic.value_toRatio (d : Dyadic) : d.toRatio.value = d.value := by
  rw [toRatio, Ratio.value_shift]
  simp [Ratio.value, Dyadic.value]

theorem Dyadic.den_toRatio (d : Dyadic) : 0 < d.toRatio.den :=
  @Ratio.den_shift ⟨d.mantissa, 1⟩ Nat.one_pos d.exponent

/-- A number with as many bits as the last bit leaves is not changed. -/
theorem nearest_of_lastBit (num : 0 < r.num) (den : 0 < r.den) {exponent : Int} {mantissa : Nat}
    (last : lastBit r = exponent) (whole : r.value = mantissa * (2 : ℚ) ^ exponent) :
    nearest r = min infinity ((exponent + 1074).toNat * binade + mantissa) := by
  have scaled : (r.shift (-exponent)).value = mantissa := by
    rw [Ratio.value_shift, whole, mul_assoc, ← zpow_add₀ (by norm_num : (2 : ℚ) ≠ 0),
      Int.add_right_neg, zpow_zero, mul_one]
  have rounded := Ratio.round_natCast (Ratio.den_shift den (-exponent)) scaled
  unfold nearest
  rw [if_neg (by omega)]
  simp only [last, rounded]

theorem Dyadic.num_toRatio {d : Dyadic} (positive : 0 < d.mantissa) : 0 < d.toRatio.num := by
  have value : d.toRatio.value ≠ 0 := by
    rw [value_toRatio, Dyadic.value]
    positivity
  exact Nat.pos_of_ne_zero fun zero => value ((num_eq_zero_iff d.den_toRatio).mp zero)

/-- A number with at most 53 bits above the least exponent is its own nearest magnitude. -/
theorem nearest_toRatio {d : Dyadic} (positive : 0 < d.mantissa)
    (low : -1074 ≤ d.exponent) (short : d.mantissa < 2 * binade)
    (full : binade ≤ d.mantissa ∨ d.exponent = -1074) :
    nearest d.toRatio = min infinity ((d.exponent + 1074).toNat * binade + d.mantissa) := by
  have num := Dyadic.num_toRatio positive
  have den := d.den_toRatio
  have value_pos := Ratio.value_pos num den
  have value := d.value_toRatio
  have two : (2 : ℚ) ≠ 0 := by norm_num
  have most : Int.log 2 d.toRatio.value < d.exponent + 53 := by
    apply (Int.lt_zpow_iff_log_lt (by norm_num : 1 < 2) value_pos).mp
    rw [value, Dyadic.value, add_comm, Nat.cast_ofNat, zpow_add₀ two]
    have bound : (d.mantissa : ℚ) < 2 ^ (53 : Int) := by
      norm_num [binade] at short ⊢
      exact_mod_cast short
    gcongr
  refine nearest_of_lastBit num den ?_ value
  rw [lastBit_eq num den]
  rcases full with large | least
  · have log_least : d.exponent + 52 ≤ Int.log 2 d.toRatio.value := by
      apply (Int.zpow_le_iff_le_log (by norm_num : 1 < 2) value_pos).mp
      rw [value, Dyadic.value, add_comm, Nat.cast_ofNat, zpow_add₀ two]
      have bound : (2 : ℚ) ^ (52 : Int) ≤ d.mantissa := by
        norm_num [binade] at large ⊢
        exact_mod_cast large
      gcongr
    omega
  · omega

/-- A finite code stands for a number whose nearest magnitude has this code. -/
theorem nearest_dyadic {code : Nat} (finite : code < infinity) :
    nearest (dyadic code).toRatio = code := by
  unfold infinity at finite
  by_cases zero : code = 0
  · subst zero
    rfl
  · by_cases small : code < binade
    · have shape : dyadic code = ⟨code, -1074⟩ := if_pos small
      rw [shape, nearest_toRatio (by simp only; omega) (by simp) (by simp only; omega) (.inr rfl)]
      have place : ((-1074 : Int) + 1074).toNat = 0 := by decide
      simp only [place, Nat.zero_mul, infinity]
      omega
    · have shape : dyadic code = ⟨binade + code % binade, Int.ofNat (code / binade) - 1075⟩ :=
        if_neg small
      have rest : code % binade < binade := Nat.mod_lt _ (by decide)
      have whole := Nat.div_add_mod code binade
      have first : 1 ≤ code / binade := (Nat.one_le_div_iff (by decide)).mpr (by omega)
      rw [shape, nearest_toRatio (by simp only; omega) (by simp only [Int.ofNat_eq_natCast]; omega)
        (by simp only; omega) (.inl (by simp))]
      simp only [Int.ofNat_eq_natCast]
      have place : ((code / binade : Nat) - 1075 + 1074 : Int).toNat = code / binade - 1 := by omega
      rw [place, Nat.sub_mul, Nat.mul_comm, Nat.one_mul]
      unfold binade infinity at *
      omega

end RuleTree.Binary64
