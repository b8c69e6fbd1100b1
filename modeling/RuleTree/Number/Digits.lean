/-!
# Integers in decimal

Writing an integer uses ASCII digits with a minus sign where needed; reading accepts an optional
sign of either kind and at least one ASCII digit, and nothing else. Reading what was written gives
the number back (`readInt?_writeInt`).
-/

namespace RuleTree.Digits

/-- The decimal digits of a number, most significant first and without leading zeros. -/
def writeNat (n : Nat) : List Char := Nat.toDigits 10 n

/-- An integer with a leading minus sign if it is negative. -/
def writeInt : Int → List Char
  | .ofNat n => writeNat n
  | .negSucc n => '-' :: writeNat (n + 1)

/-- Fills up with zeros on the left to at least `width` digits. -/
def padded (width : Nat) (digits : List Char) : List Char :=
  List.replicate (width - digits.length) '0' ++ digits

/-- The number that a nonempty string of ASCII digits denotes. -/
def readNat? (text : List Char) : Option Nat :=
  if text ≠ [] ∧ text.all Char.isDigit then some (Nat.ofDigitChars 10 text 0) else none

/-- The integer that an optional sign and ASCII digits denote. -/
def readInt? : List Char → Option Int
  | '+' :: rest => (readNat? rest).map Int.ofNat
  | '-' :: rest => (readNat? rest).map fun n => -Int.ofNat n
  | text => (readNat? text).map Int.ofNat

theorem isDigit_of_mem_writeNat {c : Char} {n : Nat} (member : c ∈ writeNat n) : c.isDigit :=
  Nat.isDigit_of_mem_toDigits (by decide) (by decide) member

theorem readNat?_writeNat (n : Nat) : readNat? (writeNat n) = some n := by
  have nonempty : writeNat n ≠ [] := Nat.toDigits_ne_nil
  have digits : (writeNat n).all Char.isDigit = true :=
    List.all_eq_true.mpr fun _ member => isDigit_of_mem_writeNat member
  rw [readNat?, if_pos ⟨nonempty, digits⟩]
  exact congrArg some Nat.ofDigitChars_ten_toDigits

/-- Text that starts with no sign is read as a plain number. -/
theorem readInt?_of_isDigit {text : List Char} (digits : text.all Char.isDigit = true) :
    readInt? text = (readNat? text).map Int.ofNat := by
  unfold readInt?
  split
  · simp [Char.isDigit] at digits
  · simp [Char.isDigit] at digits
  · rfl

theorem readInt?_writeInt (n : Int) : readInt? (writeInt n) = some n := by
  cases n with
  | ofNat n =>
    have digits : (writeNat n).all Char.isDigit = true :=
      List.all_eq_true.mpr fun _ member => isDigit_of_mem_writeNat member
    rw [writeInt, readInt?_of_isDigit digits, readNat?_writeNat]
    rfl
  | negSucc n => simp [writeInt, readInt?, readNat?_writeNat, Int.negSucc_eq]

end RuleTree.Digits
