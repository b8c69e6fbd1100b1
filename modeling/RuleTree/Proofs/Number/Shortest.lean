import RuleTree.Proofs.Number.Literals
import RuleTree.Proofs.Number.Rounding

/-!
# Decimals of floats

Which float a decimal is read as depends on the number alone (`Decimal.code_congr`), and the decimal
that is written for a finite float is read as this float (`Decimal.code_shortest`).
-/

namespace RuleTree.Decimal

open Binary64

/-! ## Decimals as rational numbers -/

/-- The number that a decimal is. -/
def value (d : Decimal) : ℚ := d.coefficient * (10 : ℚ) ^ d.exponent

variable {d d' : Decimal}

theorem value_toRatio (d : Decimal) : d.toRatio.value = d.value := by
  rw [toRatio, Ratio.value_shiftTen]
  simp [Ratio.value, value]

theorem den_toRatio (d : Decimal) : 0 < d.toRatio.den :=
  @Ratio.den_shiftTen ⟨d.coefficient, 1⟩ Nat.one_pos d.exponent

theorem coefficient_eq_zero_iff (d : Decimal) : d.coefficient = 0 ↔ d.value = 0 := by
  have power : (10 : ℚ) ^ d.exponent ≠ 0 := by positivity
  simp [value, power]

theorem value_pos (positive : 0 < d.coefficient) : 0 < d.value := by
  unfold value
  positivity

theorem length_pos (d : Decimal) : 0 < d.length :=
  List.length_pos_of_ne_nil Nat.toDigits_ne_nil

theorem coefficient_lt (d : Decimal) : d.coefficient < 10 ^ d.length :=
  (Nat.length_toDigits_le_iff (by decide) d.length_pos).mp (Nat.le_refl _)

theorem le_coefficient (positive : 0 < d.coefficient) : 10 ^ (d.length - 1) ≤ d.coefficient := by
  by_cases one : d.length - 1 = 0
  · rw [one]
    exact positive
  · by_contra less
    have short : (Digits.writeNat d.coefficient).length ≤ d.length - 1 :=
      (Nat.length_toDigits_le_iff (by decide) (by omega)).mpr (by omega)
    have same : (Digits.writeNat d.coefficient).length = d.length := rfl
    omega

/-- The place of the first digit is the decimal logarithm. -/
theorem order_eq (positive : 0 < d.coefficient) :
    d.exponent + d.length = Int.log 10 d.value + 1 := by
  have value_pos := value_pos positive
  have ten : (10 : ℚ) ≠ 0 := by norm_num
  have length := d.length_pos
  have power : (0 : ℚ) < 10 ^ d.exponent := by positivity
  have most : Int.log 10 d.value < d.length + d.exponent := by
    apply (Int.lt_zpow_iff_log_lt (by norm_num : 1 < 10) value_pos).mp
    rw [value, Nat.cast_ofNat, zpow_add₀ ten, zpow_natCast]
    have bound : (d.coefficient : ℚ) < 10 ^ d.length := by exact_mod_cast d.coefficient_lt
    exact mul_lt_mul_of_pos_right bound power
  have least : ((d.length - 1 : Nat) : Int) + d.exponent ≤ Int.log 10 d.value := by
    apply (Int.zpow_le_iff_le_log (by norm_num : 1 < 10) value_pos).mp
    rw [value, Nat.cast_ofNat, zpow_add₀ ten, zpow_natCast]
    have bound : (10 : ℚ) ^ (d.length - 1) ≤ d.coefficient := by
      exact_mod_cast le_coefficient positive
    exact mul_le_mul_of_nonneg_right bound power.le
  omega

/-- Which magnitude a decimal is read as depends on the number alone. -/
theorem code_congr (same : d.value = d'.value) : d.code = d'.code := by
  have zero : d.coefficient = 0 ↔ d'.coefficient = 0 := by
    rw [coefficient_eq_zero_iff, coefficient_eq_zero_iff, same]
  unfold code
  by_cases none : d.coefficient = 0
  · rw [if_pos none, if_pos (zero.mp none)]
  · have none' : d'.coefficient ≠ 0 := fun coefficient => none (zero.mpr coefficient)
    have ratios : nearest d.toRatio = nearest d'.toRatio :=
      nearest_congr d.den_toRatio d'.den_toRatio (by rw [value_toRatio, value_toRatio, same])
    rw [if_neg none, if_neg none', order_eq (Nat.pos_of_ne_zero none),
      order_eq (Nat.pos_of_ne_zero none'), same, ratios]

/-! ## Shortest decimals -/

theorem value_exact (d : Binary64.Dyadic) : (exact d).value = d.value := by
  have split (k : Nat) : (5 : ℚ) ^ k * (10 : ℚ) ^ (-(k : Int)) = 2 ^ (-(k : Int)) := by
    rw [zpow_neg, zpow_neg, zpow_natCast, zpow_natCast, show (10 : ℚ) = 2 * 5 by norm_num, mul_pow]
    field_simp
  rcases d with ⟨mantissa, exponent⟩
  cases exponent with
  | ofNat k =>
      show ((mantissa * Nat.pow 2 k : Nat) : ℚ) * 10 ^ (0 : Int) = mantissa * 2 ^ (k : Int)
      rw [Nat.pow_eq, zpow_natCast]
      push_cast
      ring
  | negSucc k =>
      show ((mantissa * Nat.pow 5 (k + 1) : Nat) : ℚ) * 10 ^ Int.negSucc k =
        mantissa * 2 ^ Int.negSucc k
      rw [Nat.pow_eq, Int.negSucc_eq, ← Int.natCast_succ, ← split (k + 1)]
      push_cast
      ring

theorem two_pow_le : (2 : ℚ) ^ 1023 ≤ 10 ^ 308 := by
  have step : (2 : ℚ) ^ 93 ≤ 10 ^ 28 := by norm_num
  calc (2 : ℚ) ^ (93 * 11) = (2 ^ 93) ^ 11 := pow_mul _ _ _
    _ ≤ (10 ^ 28) ^ 11 := pow_le_pow_left₀ (by positivity) step 11
    _ = 10 ^ (28 * 11) := (pow_mul _ _ _).symm

/-- The least power of two that is a float, and one above all floats. -/
theorem two_pow_bounds : (10 : ℚ) ^ (-331 : Int) ≤ 2 ^ (-1074 : Int) ∧
    (2 : ℚ) ^ 53 * 2 ^ (971 : Int) < 10 ^ (310 : Int) := by
  have bound := two_pow_le
  constructor
  · rw [zpow_neg, zpow_neg]
    apply inv_anti₀ (by positivity)
    calc (2 : ℚ) ^ (1023 + 51) = 2 ^ 1023 * 2 ^ 51 := pow_add _ _ _
      _ ≤ 10 ^ 308 * 10 ^ 23 := by
          apply mul_le_mul bound (by norm_num) (by positivity) (by positivity)
      _ = 10 ^ (308 + 23) := (pow_add _ _ _).symm
  · calc (2 : ℚ) ^ 53 * 2 ^ 971 = 2 ^ 1 * 2 ^ 1023 := by rw [← pow_add, ← pow_add]
      _ ≤ 2 ^ 1 * 10 ^ 308 := by gcongr
      _ < 10 ^ 2 * 10 ^ 308 := by
          apply mul_lt_mul_of_pos_right (by norm_num) (by positivity)
      _ = 10 ^ (2 + 308) := (pow_add _ _ _).symm

/-- The numbers that finite codes stand for lie between these powers of ten. -/
theorem dyadic_bounds {code : Nat} (finite : code < infinity) (positive : 0 < code) :
    (10 : ℚ) ^ (-331 : Int) ≤ (dyadic code).value ∧ (dyadic code).value < 10 ^ (310 : Int) := by
  have shape : 0 < (dyadic code).mantissa ∧ (dyadic code).mantissa < 2 * binade ∧
      -1074 ≤ (dyadic code).exponent ∧ (dyadic code).exponent ≤ 971 := by
    unfold dyadic
    by_cases small : code < binade
    · rw [if_pos small]
      exact ⟨positive, by simp only; omega, by simp, by simp⟩
    · have rest : code % binade < binade := Nat.mod_lt _ (by decide)
      have some_bits : 0 < binade := by decide
      have first : 1 ≤ code / binade := (Nat.one_le_div_iff some_bits).mpr (by omega)
      have most : code / binade < 2047 := (Nat.div_lt_iff_lt_mul (by decide)).mpr finite
      rw [if_neg small]
      simp only [Int.ofNat_eq_natCast]
      exact ⟨by omega, by omega, by omega, by omega⟩
  rcases shape with ⟨some_mantissa, short, low, high⟩
  have mantissa_least : (1 : ℚ) ≤ (dyadic code).mantissa := by exact_mod_cast some_mantissa
  have mantissa_most : ((dyadic code).mantissa : ℚ) ≤ 2 ^ 53 := by
    norm_num [binade] at short ⊢
    exact_mod_cast short.le
  have power_least : (2 : ℚ) ^ (-1074 : Int) ≤ 2 ^ (dyadic code).exponent :=
    zpow_le_zpow_right₀ (by norm_num) low
  have power_most : (2 : ℚ) ^ (dyadic code).exponent ≤ 2 ^ (971 : Int) :=
    zpow_le_zpow_right₀ (by norm_num) high
  unfold Binary64.Dyadic.value
  constructor
  · calc (10 : ℚ) ^ (-331 : Int) ≤ 1 * 2 ^ (-1074 : Int) := by rw [one_mul]; exact two_pow_bounds.1
      _ ≤ (dyadic code).mantissa * 2 ^ (dyadic code).exponent := by gcongr
  · calc ((dyadic code).mantissa : ℚ) * 2 ^ (dyadic code).exponent
        ≤ 2 ^ 53 * 2 ^ (971 : Int) := by gcongr
      _ < 10 ^ (310 : Int) := two_pow_bounds.2

theorem code_exact {code : Nat} (finite : code < infinity) : (exact (dyadic code)).code = code := by
  by_cases zero : code = 0
  · subst zero
    have nothing : (exact (dyadic 0)).coefficient = 0 := by
      rw [coefficient_eq_zero_iff, value_exact]
      simp [dyadic, binade, Binary64.Dyadic.value]
    exact if_pos nothing
  · rcases dyadic_bounds finite (Nat.pos_of_ne_zero zero) with ⟨least, most⟩
    rw [← value_exact] at least most
    have ten : (0 : ℚ) < 10 ^ (-331 : Int) := by positivity
    have value_pos : 0 < (exact (dyadic code)).value := lt_of_lt_of_le ten least
    have some_digits : (exact (dyadic code)).coefficient ≠ 0 := by
      rw [ne_eq, coefficient_eq_zero_iff]
      exact ne_of_gt value_pos
    have log_least : -331 ≤ Int.log 10 (exact (dyadic code)).value :=
      (Int.zpow_le_iff_le_log (by norm_num : 1 < 10) value_pos).mp (by exact_mod_cast least)
    have log_most : Int.log 10 (exact (dyadic code)).value < 310 :=
      (Int.lt_zpow_iff_log_lt (by norm_num : 1 < 10) value_pos).mp (by exact_mod_cast most)
    have order := order_eq (Nat.pos_of_ne_zero some_digits)
    have same : nearest (exact (dyadic code)).toRatio = nearest (dyadic code).toRatio :=
      nearest_congr (den_toRatio _) (Binary64.Dyadic.den_toRatio _)
        (by rw [value_toRatio, value_exact, Binary64.Dyadic.value_toRatio])
    unfold Decimal.code
    rw [if_neg some_digits]
    simp only [order]
    rw [if_neg (by omega), if_neg (by omega), same, nearest_dyadic finite]

/-- The shortest decimal of a finite code is read back to it. -/
theorem code_shortest (tie : Tie) {code : Nat} (finite : code < infinity) :
    (shortest tie code).code = code := by
  unfold shortest
  simp only
  generalize ((List.range 17).flatMap fun (digits : Nat) => neighbours tie (dyadic code).toRatio
    (order (dyadic code).toRatio - digits)) = candidates
  cases found : candidates.find? fun d => d.code = code with
  | none => exact code_exact finite
  | some candidate => simpa using List.find?_some found

end RuleTree.Decimal

