import RuleTree.Function.Builtin
import RuleTree.Operator.Apply
import RuleTree.Proofs.Number.Order

/-!
# The lesser and the greater of two integers

The operators compare integers as integers, but `min` and `max` compare the floats nearest to them.
Rounding keeps the order of integers as far as their floats differ, so both find the right one of
the two unless these are different and have one float; then they choose the first in any case, and
the operators tell that it is the wrong one if the order of the two is against it
(`extremes_of_ints`).
-/

namespace RuleTree

/-- The second integer is greater than the first, but both have one float. -/
def Indistinct (a b : Int64) : Prop :=
  a.toInt < b.toInt ∧ Binary64.ofInt a.toInt = Binary64.ofInt b.toInt

/-- Integers with one float are not both at most `2 ^ 53`. -/
theorem Indistinct.large {a b : Int64} (indistinct : Indistinct a b) :
    0x20000000000000 < a.toInt.natAbs ∨ 0x20000000000000 < b.toInt.natAbs := by
  rcases indistinct with ⟨less, same⟩
  by_contra small
  rw [not_or, not_lt, not_lt] at small
  exact less.ne (Binary64.ofInt_injective small.1 small.2 same)

/-- The floats of integers are in order if the integers are, and besides if they are indistinct. -/
theorem ofInt_le_iff_indistinct (a b : Int64) :
    Binary64.ofInt a.toInt ≤ Binary64.ofInt b.toInt ↔ a.toInt ≤ b.toInt ∨ Indistinct b a := by
  rw [Binary64.ofInt_le_iff (Word.inRange_toInt a) (Word.inRange_toInt b)]
  unfold Indistinct
  constructor
  · rintro (le | same)
    · exact .inl le
    · rcases le_or_gt a.toInt b.toInt with le | greater
      · exact .inl le
      · exact .inr ⟨greater, same.symm⟩
  · rintro (le | ⟨-, same⟩)
    · exact .inl le
    · exact .inr same.symm

/-- The operator holds between one integer and each of two others. -/
def HoldsOfBoth (symbol : String) (m a b : Int64) : Prop :=
  applyBinary symbol (.int m) (.int a) = .ok (.bool true) ∧
    applyBinary symbol (.int m) (.int b) = .ok (.bool true)

theorem applyBinary_ge (a b : Int64) :
    applyBinary ">=" (.int a) (.int b) = .ok (.bool true) ↔ b.toInt ≤ a.toInt := by
  show Except.ok (Value.bool (compare a.toInt b.toInt).isGE) = _ ↔ _
  rw [Except.ok.injEq, Value.bool.injEq, Int.isGE_compare]

theorem applyBinary_le (a b : Int64) :
    applyBinary "<=" (.int a) (.int b) = .ok (.bool true) ↔ a.toInt ≤ b.toInt := by
  show Except.ok (Value.bool (compare a.toInt b.toInt).isLE) = _ ↔ _
  rw [Except.ok.injEq, Value.bool.injEq, Int.isLE_compare]

/-- A function that chooses one of two numbers looks at the floats nearest to integers. -/
theorem call_choose [Host] {title : String} {first : Float → Float → Bool}
    (found : Builtin.library.get? title =
      some (.named title ["a", "b"] (.pure (Builtin.choose first))))
    (a b : Int64) (bindings : Bindings) :
    Builtin.library.call title [.int a, .int b] bindings =
      (.ok (.int (if first (Binary64.ofInt a.toInt) (Binary64.ofInt b.toInt) then a else b)),
        bindings) := by
  rw [apply_ite Value.int]
  unfold Library.call Library.callIn
  rw [found]
  rfl

/-- A choice between two integers is for the better one, or for the first where it is hidden that
the first is the worse. -/
theorem better_of_choice {better : Int → Int → Prop} (total : ∀ m n, better m n ∨ better n m)
    {chosen hidden : Prop} [Decidable chosen] {a b : Int64}
    (choice : chosen ↔ better a.toInt b.toInt ∨ hidden)
    (worse : hidden → ¬better a.toInt b.toInt) {m : Int64} (result : m = if chosen then a else b) :
    (¬hidden ∧ (m = a ∨ m = b) ∧ better m.toInt a.toInt ∧ better m.toInt b.toInt) ∨
      (hidden ∧ m = a ∧ ¬better m.toInt b.toInt) := by
  have itself (n : Int) : better n n := (total n n).elim id id
  subst result
  by_cases concealed : hidden
  · rw [if_pos (choice.mpr (.inr concealed))]
    exact .inr ⟨concealed, rfl, worse concealed⟩
  · rw [or_iff_left concealed] at choice
    left
    by_cases first : better a.toInt b.toInt
    · rw [if_pos (choice.mpr first)]
      exact ⟨concealed, .inl rfl, itself _, first⟩
    · rw [if_neg (mt choice.mp first)]
      exact ⟨concealed, .inr rfl, (total _ _).resolve_left first, itself _⟩

/--
`max` gives the greater of two integers and `min` the lesser, and the operators agree.  The
exceptions are an indistinct pair with the greater integer second for `max`, and one with the lesser
integer second for `min`: there the first integer is the result, and the operators disagree.  At
least one integer of an indistinct pair is beyond `2 ^ 53`.
-/
theorem extremes_of_ints [Host] (a b : Int64) (bindings : Bindings) :
    (∃ m, Builtin.library.call "max" [.int a, .int b] bindings = (.ok (.int m), bindings) ∧
      (¬Indistinct a b ∧ m.toInt = max a.toInt b.toInt ∧ HoldsOfBoth ">=" m a b ∨
        Indistinct a b ∧ m = a ∧ m.toInt < b.toInt ∧ ¬HoldsOfBoth ">=" m a b)) ∧
    (∃ m, Builtin.library.call "min" [.int a, .int b] bindings = (.ok (.int m), bindings) ∧
      (¬Indistinct b a ∧ m.toInt = min a.toInt b.toInt ∧ HoldsOfBoth "<=" m a b ∨
        Indistinct b a ∧ m = a ∧ b.toInt < m.toInt ∧ ¬HoldsOfBoth "<=" m a b)) ∧
    (¬Indistinct a b ∧ ¬Indistinct b a ∨
      0x20000000000000 < a.toInt.natAbs ∨ 0x20000000000000 < b.toInt.natAbs) := by
  refine ⟨⟨_, call_choose rfl a b bindings, ?_⟩, ⟨_, call_choose rfl a b bindings, ?_⟩, ?_⟩
  · have choice := decide_eq_true_iff.trans (ofInt_le_iff_indistinct b a)
    rcases better_of_choice (fun m n => le_total n m) choice (fun hidden => not_le.mpr hidden.1) rfl
      with ⟨shown, which, over_a, over_b⟩ | ⟨hidden, first, worse⟩
    · refine .inl ⟨shown, ?_, (applyBinary_ge _ a).mpr over_a, (applyBinary_ge _ b).mpr over_b⟩
      rcases which with same | same <;> rw [same] at over_a over_b ⊢ <;> omega
    · exact .inr ⟨hidden, first, not_le.mp worse, fun holds =>
        worse ((applyBinary_ge _ b).mp holds.2)⟩
  · have choice := decide_eq_true_iff.trans (ofInt_le_iff_indistinct a b)
    rcases better_of_choice (fun m n => le_total m n) choice (fun hidden => not_le.mpr hidden.1) rfl
      with ⟨shown, which, below_a, below_b⟩ | ⟨hidden, first, worse⟩
    · refine .inl ⟨shown, ?_, (applyBinary_le _ a).mpr below_a, (applyBinary_le _ b).mpr below_b⟩
      rcases which with same | same <;> rw [same] at below_a below_b ⊢ <;> omega
    · exact .inr ⟨hidden, first, not_le.mp worse, fun holds =>
        worse ((applyBinary_le _ b).mp holds.2)⟩
  · by_cases first : Indistinct a b
    · exact .inr first.large
    · by_cases second : Indistinct b a
      · exact .inr second.large.symm
      · exact .inl ⟨first, second⟩

example : Builtin.library.call "max" [.int 3, .int 5] .empty = (.ok (.int 5), .empty) := by rfl

/-- `max` of `2 ^ 53` and the next integer is the lesser one. -/
theorem max_hides_successor :
    Builtin.library.call "max" [.int 0x20000000000000, .int 0x20000000000001] Table.empty =
        (.ok (.int 0x20000000000000), Table.empty) ∧
      applyBinary ">=" (.int 0x20000000000000) (.int 0x20000000000001) = .ok (.bool false) := by
  have hidden : Binary64.ofInt 0x20000000000001 ≤ Binary64.ofInt 0x20000000000000 := by
    decide
  refine ⟨?_, rfl⟩
  rw [call_choose rfl]
  exact congrArg (fun m => (Except.ok (Value.int m), Table.empty))
    (if_pos (decide_eq_true hidden))

end RuleTree
