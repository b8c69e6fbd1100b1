/-!
# Signed 64-bit integers

The integers of rules are signed 64-bit words. Arithmetic is done on the integers they stand for,
and `Word.ofInt?` says whether the result is a word again: an operation is exact or it reports that
there is no such word.
-/

namespace RuleTree.Word

/-- The integers that a signed 64-bit word can hold. -/
def InRange (n : Int) : Prop := -0x8000000000000000 ≤ n ∧ n < 0x8000000000000000

instance (n : Int) : Decidable (InRange n) := inferInstanceAs (Decidable (_ ∧ _))

/-- The word for an integer, if there is one. -/
def ofInt? (n : Int) : Option Int64 := if InRange n then some (Int64.ofInt n) else none

theorem inRange_toInt (w : Int64) : InRange w.toInt := ⟨w.le_toInt, w.toInt_lt⟩

theorem ofInt?_toInt (w : Int64) : ofInt? w.toInt = some w := by
  simp [ofInt?, inRange_toInt]

theorem toInt_of_ofInt? {n : Int} {w : Int64} (h : ofInt? n = some w) : w.toInt = n := by
  unfold ofInt? at h
  split at h
  · rename_i range
    obtain rfl := Option.some.inj h
    exact Int64.toInt_ofInt_of_le range.1 range.2
  · cases h

theorem ofInt?_eq_none_iff {n : Int} : ofInt? n = none ↔ ¬InRange n := by
  simp [ofInt?]

/--
The power of a word, if it is a word again. The powers of `-1`, `0` and `1` repeat from the first
on, so that a large exponent counts only by its parity; every other base leaves the range before its
64th power.
-/
def pow? (base : Int64) (exponent : Nat) : Option Int64 :=
  if base.toInt.natAbs ≤ 1 then
    ofInt? (Int.pow base.toInt (if exponent = 0 then 0 else 2 - exponent % 2))
  else if exponent < 64 then ofInt? (Int.pow base.toInt exponent)
  else none

end RuleTree.Word
