import Mathlib.Algebra.Order.Ring.Abs
import Mathlib.Algebra.Ring.Parity
import Mathlib.Tactic.NormNum
import RuleTree.Operator.Apply

/-!
# Powers of integers

A power of words is worked out as a power of integers, and it is a word if that power is in range
(`Word.pow?_eq`).  But the operator takes exponents of at most 32 bits only and reports an overflow
for every longer one.  Nearly all powers with such an exponent are out of range anyway; those of
`-1`, `0` and `1` are not, so for these bases and no others the report is false (`power_exact`).
-/

namespace RuleTree

namespace Word

theorem ofInt?_eq_some_iff {n : Int} {w : Int64} : ofInt? n = some w ↔ w.toInt = n := by
  constructor
  · exact toInt_of_ofInt?
  · rintro rfl
    exact ofInt?_toInt w

/-- From the first power on, the powers of `-1`, `0` and `1` count the exponent by its parity. -/
theorem pow_repeats {base : Int} (small : base.natAbs ≤ 1) (exponent : Nat) :
    base ^ (if exponent = 0 then 0 else 2 - exponent % 2) = base ^ exponent := by
  by_cases zero : exponent = 0
  · simp [zero]
  · rw [if_neg zero]
    have bases : base = -1 ∨ base = 0 ∨ base = 1 := by omega
    rcases bases with rfl | rfl | rfl
    · rcases Nat.mod_two_eq_zero_or_one exponent with even | odd
      · rw [even, (Nat.even_iff.mpr even).neg_one_pow]
        rfl
      · rw [odd, (Nat.odd_iff.mpr odd).neg_one_pow]
        rfl
    · rw [zero_pow zero, zero_pow (by omega)]
    · rw [one_pow, one_pow]

/-- Any other base leaves the range before its 64th power. -/
theorem not_inRange_pow {base : Int} {exponent : Nat} (large : 1 < base.natAbs)
    (long : 64 ≤ exponent) : ¬InRange (base ^ exponent) := by
  have bound : 2 ^ 64 ≤ (base ^ exponent).natAbs := by
    rw [Int.natAbs_pow]
    calc 2 ^ 64 ≤ 2 ^ exponent := Nat.pow_le_pow_right (by decide) long
      _ ≤ base.natAbs ^ exponent := Nat.pow_le_pow_left large exponent
  unfold InRange
  omega

/-- The power of a word is the power of its integer, if that is in range. -/
theorem pow?_eq (base : Int64) (exponent : Nat) :
    pow? base exponent = ofInt? (base.toInt ^ exponent) := by
  unfold pow?
  split
  · rename_i small
    exact congrArg ofInt? (pow_repeats small exponent)
  · rename_i large
    split
    · rfl
    · rename_i long
      exact (ofInt?_eq_none_iff.mpr (not_inRange_pow (by omega) (by omega))).symm

end Word

/-- The power is a word, but its exponent has more than 32 bits. -/
def CutShort (base exponent : Int64) : Prop :=
  base.toInt.natAbs ≤ 1 ∧ 0x100000000 ≤ exponent.toInt

instance (base exponent : Int64) : Decidable (CutShort base exponent) :=
  inferInstanceAs (Decidable (_ ∧ _))

theorem exactOr_eq_ok {symbol : String} {result : Option Int64} {w : Int64} :
    exactOr symbol result = .ok (.int w) ↔ result = some w := by
  cases result <;> simp [exactOr]

theorem exactOr_eq_overflow {symbol : String} {result : Option Int64} :
    exactOr symbol result = .error (.overflow symbol) ↔ result = none := by
  cases result <;> simp [exactOr]

/-- What the operator does with a natural exponent. -/
theorem applyBinary_pow {base exponent : Int64} (natural : 0 ≤ exponent.toInt) :
    applyBinary "^" (.int base) (.int exponent) = exactOr "^"
      (if exponent.toInt < 0x100000000 then
        Word.ofInt? (base.toInt ^ exponent.toInt.toNat) else none) := by
  rw [← Word.pow?_eq]
  exact if_pos natural

/-- An integer to a natural exponent gives the exact power if it is a word, and otherwise reports an
overflow, but for one thing: an exponent of more than 32 bits is reported as an overflow even if the
power is a word, which it is for the bases `-1`, `0` and `1`. -/
theorem power_exact (base exponent : Int64) (natural : 0 ≤ exponent.toInt) :
    (∀ w : Int64, applyBinary "^" (.int base) (.int exponent) = .ok (.int w) ↔
      w.toInt = base.toInt ^ exponent.toInt.toNat ∧ ¬CutShort base exponent) ∧
    (applyBinary "^" (.int base) (.int exponent) = .error (.overflow "^") ↔
      ¬Word.InRange (base.toInt ^ exponent.toInt.toNat) ∨ CutShort base exponent) := by
  rw [applyBinary_pow natural]
  by_cases short : exponent.toInt < 0x100000000
  · have whole : ¬CutShort base exponent := fun cut => Int.not_lt.mpr cut.2 short
    rw [if_pos short]
    refine ⟨fun w => ?_, ?_⟩
    · rw [exactOr_eq_ok, Word.ofInt?_eq_some_iff]
      exact ⟨fun exact_power => ⟨exact_power, whole⟩, And.left⟩
    · rw [exactOr_eq_overflow, Word.ofInt?_eq_none_iff]
      exact ⟨.inl, fun overflows => overflows.resolve_right whole⟩
  · -- The power is out of range, or it is cut short.
    have outside (whole : ¬CutShort base exponent) :
        ¬Word.InRange (base.toInt ^ exponent.toInt.toNat) := by
      have large : ¬base.toInt.natAbs ≤ 1 := fun small => whole ⟨small, Int.not_lt.mp short⟩
      exact Word.not_inRange_pow (by omega) (by omega)
    rw [if_neg short]
    refine ⟨fun w => ?_, ?_⟩
    · rw [exactOr_eq_ok]
      constructor
      · intro impossible
        cases impossible
      · rintro ⟨exact_power, whole⟩
        exact absurd (exact_power ▸ Word.inRange_toInt w) (outside whole)
    · rw [exactOr_eq_overflow]
      exact ⟨fun _ => or_iff_not_imp_right.mpr outside, fun _ => rfl⟩

/-- A power that is the least word. -/
theorem power_exact_least : 0 ≤ (63 : Int64).toInt ∧
    applyBinary "^" (.int (-2)) (.int 63) = .ok (.int Int64.minValue) :=
  ⟨by decide, ((power_exact (-2) 63 (by decide)).1 _).mpr ⟨by decide, by decide⟩⟩

/-- One to any exponent is one, but this is reported as an overflow. -/
theorem one_overflows : 0 ≤ (4294967296 : Int64).toInt ∧
    (1 : Int64).toInt ^ (4294967296 : Int64).toInt.toNat = (1 : Int64).toInt ∧
      applyBinary "^" (.int 1) (.int 4294967296) = .error (.overflow "^") :=
  ⟨by decide, one_pow _, by rfl⟩

end RuleTree
