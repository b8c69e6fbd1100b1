import Mathlib.Algebra.Order.Group.Unbundled.Int
import RuleTree.Operator.Apply

/-!
# Arithmetic on integers

Sums, differences, products, negatives and absolute values of integers are exact or reported as an
overflow.  The remainder is that of truncated division, moved by one divisor where it has the wrong
sign; moving it brings it nearer to zero than the divisor is, so that it stays in range
(`inRange_moved`).  `integers_exact` puts all of this together.
-/

namespace RuleTree

/-- The exact integer if it is a word, and otherwise an overflow. -/
def ExactOrOverflow (symbol : String) (exact : Int) (result : Except EvaluationError Value) :
    Prop :=
  (Word.InRange exact ∧ ∃ w : Int64, w.toInt = exact ∧ result = .ok (.int w)) ∨
    (¬Word.InRange exact ∧ result = .error (.overflow symbol))

theorem exactOr_ofInt? (symbol : String) (n : Int) :
    ExactOrOverflow symbol n (exactOr symbol (Word.ofInt? n)) := by
  by_cases range : Word.InRange n
  · left
    have same : (Int64.ofInt n).toInt = n := Int64.toInt_ofInt_of_le range.1 range.2
    refine ⟨range, Int64.ofInt n, same, ?_⟩
    rw [Word.ofInt?, if_pos range]
    rfl
  · right
    refine ⟨range, ?_⟩
    rw [Word.ofInt?, if_neg range]
    rfl

/-! ## Remainders -/

/-- The divisor goes into the rest of the dividend, and the remainder lies between zero, which it
may be, and the divisor, which it may not. -/
def RemainderOf (dividend divisor remainder : Int) : Prop :=
  divisor ∣ dividend - remainder ∧
    (0 < divisor ∧ 0 ≤ remainder ∧ remainder < divisor ∨
      divisor < 0 ∧ divisor < remainder ∧ remainder ≤ 0)

/-- The remainder of truncated division is not zero and has the other sign than the divisor. -/
def WrongSign (dividend divisor : Int) : Prop :=
  dividend.tmod divisor ≠ 0 ∧
    (dividend.tmod divisor < 0 ∧ 0 < divisor ∨ 0 < dividend.tmod divisor ∧ divisor < 0)

section Remainder

variable {dividend divisor : Int}

theorem natAbs_tmod_lt (dividend : Int) (nonzero : divisor ≠ 0) :
    (dividend.tmod divisor).natAbs < divisor.natAbs := by
  rw [Int.natAbs_tmod]
  exact Nat.mod_lt _ (Int.natAbs_pos.mpr nonzero)

theorem dvd_sub_tmod (dividend divisor : Int) : divisor ∣ dividend - dividend.tmod divisor := by
  refine ⟨dividend.tdiv divisor, ?_⟩
  have whole := Int.tmod_add_mul_tdiv dividend divisor
  omega

theorem wrongSign_iff (nonzero : divisor ≠ 0) : WrongSign dividend divisor ↔
    dividend.tmod divisor ≠ 0 ∧ decide (dividend.tmod divisor < 0) ≠ decide (divisor < 0) := by
  unfold WrongSign
  rw [ne_eq (decide _), decide_eq_decide]
  omega

/-- A remainder of the wrong sign is moved by one divisor. -/
theorem remainderOf_moved (wrong : WrongSign dividend divisor) :
    RemainderOf dividend divisor (dividend.tmod divisor + divisor) := by
  have nonzero : divisor ≠ 0 := by
    rcases wrong.2 with ⟨_, positive⟩ | ⟨_, negative⟩ <;> omega
  have small := natAbs_tmod_lt dividend nonzero
  constructor
  · rw [← sub_sub]
    exact Int.dvd_sub (dvd_sub_tmod dividend divisor) (Int.dvd_refl divisor)
  · rcases wrong.2 with ⟨below, positive⟩ | ⟨above, negative⟩ <;> omega

/-- Any other remainder stays where it is. -/
theorem remainderOf_tmod (nonzero : divisor ≠ 0) (right : ¬WrongSign dividend divisor) :
    RemainderOf dividend divisor (dividend.tmod divisor) := by
  have small := natAbs_tmod_lt dividend nonzero
  refine ⟨dvd_sub_tmod dividend divisor, ?_⟩
  unfold WrongSign at right
  omega

/-- A remainder is no further from zero than the divisor. -/
theorem RemainderOf.inRange {remainder : Int} (found : RemainderOf dividend divisor remainder)
    (range : Word.InRange divisor) : Word.InRange remainder := by
  unfold Word.InRange at range ⊢
  rcases found.2 with positive | negative <;> omega

theorem inRange_moved (wrong : WrongSign dividend divisor) (range : Word.InRange divisor) :
    Word.InRange (dividend.tmod divisor + divisor) :=
  (remainderOf_moved wrong).inRange range

end Remainder

/-- A division that is neither by zero nor that of the least word by minus one has a remainder. -/
theorem moduloInts_eq {a b : Int64} (nonzero : b ≠ 0)
    (fits : ¬(a.toInt = -0x8000000000000000 ∧ b.toInt = -1)) :
    ∃ r : Int64, moduloInts a b = .ok (.int r) ∧ RemainderOf a.toInt b.toInt r.toInt := by
  have divisor : b.toInt ≠ 0 := fun zero => nonzero (Int64.toInt_inj.mp zero)
  have word {n : Int} (found : RemainderOf a.toInt b.toInt n) :
      RemainderOf a.toInt b.toInt (Int64.ofInt n).toInt := by
    have range := found.inRange (Word.inRange_toInt b)
    rwa [Int64.toInt_ofInt_of_le range.1 range.2]
  unfold moduloInts
  rw [if_neg nonzero, if_neg fits]
  by_cases wrong : WrongSign a.toInt b.toInt
  · exact ⟨_, if_pos ((wrongSign_iff divisor).mp wrong), word (remainderOf_moved wrong)⟩
  · exact ⟨_, if_neg (mt (wrongSign_iff divisor).mpr wrong), word (remainderOf_tmod divisor wrong)⟩

/--
The operators on integers are exact or report an overflow.  The remainder has no value for a zero
divisor, and for the least word and minus one it counts as an overflow; otherwise it has the sign of
the divisor.  Moving a remainder of the wrong sign never leaves the range of words.
-/
theorem integers_exact (a b : Int64) :
    ExactOrOverflow "+" (a.toInt + b.toInt) (applyBinary "+" (.int a) (.int b)) ∧
    ExactOrOverflow "-" (a.toInt - b.toInt) (applyBinary "-" (.int a) (.int b)) ∧
    ExactOrOverflow "*" (a.toInt * b.toInt) (applyBinary "*" (.int a) (.int b)) ∧
    ExactOrOverflow "-" (-a.toInt) (applyUnary "-" (.int a)) ∧
    ExactOrOverflow "abs" |a.toInt| (applyUnary "abs" (.int a)) ∧
    (b = 0 ∧ applyBinary "%" (.int a) (.int b) = .error .divisionByZero ∨
      a = Int64.minValue ∧ b = -1 ∧
        applyBinary "%" (.int a) (.int b) = .error (.overflow "%") ∨
      b ≠ 0 ∧ ¬(a = Int64.minValue ∧ b = -1) ∧
        ∃ r : Int64, applyBinary "%" (.int a) (.int b) = .ok (.int r) ∧
          RemainderOf a.toInt b.toInt r.toInt) ∧
    (WrongSign a.toInt b.toInt → Word.InRange (a.toInt.tmod b.toInt + b.toInt)) := by
  refine ⟨exactOr_ofInt? _ _, exactOr_ofInt? _ _, exactOr_ofInt? _ _, exactOr_ofInt? _ _, ?_, ?_,
    fun wrong => inRange_moved wrong (Word.inRange_toInt b)⟩
  · rw [Int.abs_eq_natAbs]
    exact exactOr_ofInt? _ _
  · have remainder : applyBinary "%" (.int a) (.int b) = moduloInts a b := rfl
    have least : a = Int64.minValue ↔ a.toInt = -0x8000000000000000 := Int64.toInt_inj.symm
    have minus_one : b = -1 ↔ b.toInt = -1 := Int64.toInt_inj.symm
    rw [remainder, least, minus_one]
    by_cases zero : b = 0
    · exact .inl ⟨zero, if_pos zero⟩
    · by_cases extreme : a.toInt = -0x8000000000000000 ∧ b.toInt = -1
      · refine .inr (.inl ⟨extreme.1, extreme.2, ?_⟩)
        rw [moduloInts, if_neg zero, if_pos extreme]
        rfl
      · exact .inr (.inr ⟨zero, extreme, moduloInts_eq zero extreme⟩)

/-- The remainder of the least word and the greatest one is moved by almost the whole range. -/
theorem integers_exact_extremes : WrongSign Int64.minValue.toInt Int64.maxValue.toInt ∧
    Word.InRange (Int64.minValue.toInt.tmod Int64.maxValue.toInt + Int64.maxValue.toInt) := by
  have wrong : WrongSign Int64.minValue.toInt Int64.maxValue.toInt := by
    refine ⟨by decide, .inl ⟨by decide, by decide⟩⟩
  exact ⟨wrong, (integers_exact Int64.minValue Int64.maxValue).2.2.2.2.2.2 wrong⟩

end RuleTree
