import RuleTree.Proofs.Number.Bits
import RuleTree.Proofs.Number.Shortest

/-!
# Floats read back

The text of a finite float, whatever its layout, is read as this float (`FloatReader.read?_write`).
-/

namespace RuleTree

open Binary64

/-! ## Digits -/

namespace Digits

/-- The number that digits denote. -/
def number (digits : List Char) : Nat := Nat.ofDigitChars 10 digits 0

theorem number_append (first second : List Char) :
    number (first ++ second) = number first * 10 ^ second.length + number second := by
  unfold number
  rw [Nat.ofDigitChars_append, Nat.ofDigitChars_eq_ofDigitChars_zero, Nat.mul_comm]

theorem number_zeros (count : Nat) : number (List.replicate count '0') = 0 := by
  unfold number
  rw [Nat.ofDigitChars_replicate_zero, Nat.mul_zero]

theorem number_writeNat (n : Nat) : number (writeNat n) = n := Nat.ofDigitChars_ten_toDigits

end Digits

open Digits

namespace FloatReader

/-! ## Reading digits -/

/-- The text goes on with something else than a digit, if at all. -/
def Stops (text : List Char) : Prop := ∀ c ∈ text.head?, c.isDigit = false

theorem takeWhile_digits {digits tail : List Char} (all : ∀ c ∈ digits, c.isDigit = true)
    (stops : Stops tail) : (digits ++ tail).takeWhile Char.isDigit = digits := by
  rw [List.takeWhile_append_of_pos all]
  cases tail with
  | nil => simp
  | cons c rest =>
      have other : c.isDigit = false := stops c rfl
      simp [other]

theorem dropWhile_digits {digits tail : List Char} (all : ∀ c ∈ digits, c.isDigit = true)
    (stops : Stops tail) : (digits ++ tail).dropWhile Char.isDigit = tail := by
  rw [List.dropWhile_append_of_pos all]
  cases tail with
  | nil => rfl
  | cons c rest =>
      have other : c.isDigit = false := stops c rfl
      simp [other]

theorem decimal?_point {whole fraction tail : List Char} (some_digit : whole ≠ [])
    (all : ∀ c ∈ whole, c.isDigit = true) (all' : ∀ c ∈ fraction, c.isDigit = true)
    (stops : Stops tail) :
    decimal? (whole ++ '.' :: (fraction ++ tail)) =
      (exponent? tail).map fun e => ⟨number (whole ++ fraction), e - fraction.length⟩ := by
  have point : Stops ('.' :: (fraction ++ tail)) := by
    rintro c ⟨⟩
    rfl
  have digits : whole ++ fraction ≠ [] := fun empty =>
    some_digit (List.append_eq_nil_iff.mp empty).1
  unfold decimal?
  simp only [takeWhile_digits all point, dropWhile_digits all point, takeWhile_digits all' stops,
    dropWhile_digits all' stops, digits, if_false]
  rfl

theorem decimal?_whole {whole tail : List Char} (some_digit : whole ≠ [])
    (all : ∀ c ∈ whole, c.isDigit = true) (stops : Stops ('e' :: tail)) :
    decimal? (whole ++ 'e' :: tail) =
      (exponent? ('e' :: tail)).map fun e => ⟨number whole, e⟩ := by
  unfold decimal?
  simp only [takeWhile_digits all stops, dropWhile_digits all stops]
  simp [number, some_digit]

/-- The text is that of a magnitude with a value. -/
structure Denotes (text : List Char) (value : ℚ) : Prop where
  starts : ∃ c rest, text = c :: rest ∧ c.isDigit = true
  decimal : ∃ d, decimal? text = some d ∧ d.value = value

theorem starts_append {whole rest : List Char} (some_digit : whole ≠ [])
    (all : ∀ c ∈ whole, c.isDigit = true) :
    ∃ c others, whole ++ rest = c :: others ∧ c.isDigit = true := by
  cases whole with
  | nil => exact absurd rfl some_digit
  | cons c others => exact ⟨c, others ++ rest, rfl, all c (by simp)⟩

/-- Digits around a point. -/
theorem denotes_point {whole fraction : List Char} {value : ℚ} (some_digit : whole ≠ [])
    (all : ∀ c ∈ whole, c.isDigit = true) (all' : ∀ c ∈ fraction, c.isDigit = true)
    (same : (number (whole ++ fraction) : ℚ) * 10 ^ (-(fraction.length : Int)) = value) :
    Denotes (whole ++ '.' :: fraction) value := by
  have stops : Stops [] := by
    rintro c ⟨⟩
  have read := decimal?_point some_digit all all' stops
  rw [List.append_nil] at read
  refine ⟨starts_append some_digit all, _, read, ?_⟩
  simp only [Decimal.value, Int.zero_sub]
  exact same

/-- Digits and an exponent. -/
theorem exponent?_write (plus : Bool) (e : Int) :
    exponent? ('e' :: ((if plus && decide (0 ≤ e) then ['+'] else []) ++ writeInt e)) = some e := by
  have marked (rest : List Char) : exponent? ('e' :: rest) = readInt? rest := by
    rw [exponent?, if_pos (.inl rfl)]
  rw [marked]
  split
  · rename_i signed
    simp only [Bool.and_eq_true, decide_eq_true_eq] at signed
    rcases Int.eq_ofNat_of_zero_le signed.2 with ⟨n, rfl⟩
    show (readNat? (writeNat n)).map Int.ofNat = some (n : Int)
    rw [readNat?_writeNat]
    rfl
  · exact readInt?_writeInt e

end FloatReader

namespace FloatStyle

open FloatReader

variable {digits : List Char}

/-- Zeros after the digits move the point. -/
theorem value_shift (n k : Nat) (exponent : Int) :
    ((n * 10 ^ k : Nat) : ℚ) * 10 ^ exponent = n * 10 ^ (k + exponent) := by
  push_cast
  rw [zpow_add₀ (by norm_num : (10 : ℚ) ≠ 0), zpow_natCast, mul_assoc]

/-- Digits with a point before the first, after the last or among them. -/
theorem denotes_plain (some_digit : digits ≠ []) (all : ∀ c ∈ digits, c.isDigit = true)
    (point : Int) :
    Denotes (plain digits point) (number digits * 10 ^ (point - digits.length)) := by
  have zeros (count : Nat) : ∀ c ∈ List.replicate count '0', c.isDigit = true := by
    intro c member
    rw [(List.mem_replicate.mp member).2]
    rfl
  have zero : ∀ c ∈ ['0'], c.isDigit = true := zeros 1
  have zero_number : number ['0'] = 0 := number_zeros 1
  unfold plain
  split
  · rename_i p
    by_cases first : p = 0
    · subst first
      rw [if_pos rfl]
      refine @denotes_point ['0'] digits _ (by simp) zero all ?_
      rw [number_append, zero_number]
      simp
    · rw [if_neg first]
      by_cases last : digits.length ≤ p
      · rw [if_pos last]
        refine denotes_point (by simp [some_digit]) ?_ zero ?_
        · intro c member
          rcases List.mem_append.mp member with here | later
          · exact all c here
          · exact zeros _ c later
        · have shifted : number (digits ++ List.replicate (p - digits.length) '0' ++ ['0']) =
              number digits * 10 ^ (p - digits.length + 1) := by
            rw [number_append, number_append, number_zeros, zero_number, List.length_replicate,
              List.length_singleton, Nat.add_zero, Nat.add_zero, Nat.mul_assoc, ← Nat.pow_add]
          rw [shifted, value_shift]
          congr 2
          simp only [List.length_singleton, Int.ofNat_eq_natCast]
          omega
      · rw [if_neg last]
        refine denotes_point ?_ (fun c member => all c (List.mem_of_mem_take member))
          (fun c member => all c (List.mem_of_mem_drop member)) ?_
        · intro empty
          have length := congrArg List.length empty
          simp only [List.length_take, List.length_nil] at length
          omega
        · rw [List.take_append_drop, List.length_drop]
          congr 2
          simp only [Int.ofNat_eq_natCast]
          omega
  · rename_i p
    refine @denotes_point ['0'] _ _ (by simp) zero ?_ ?_
    · intro c member
      rcases List.mem_append.mp member with here | later
      · exact zeros _ c here
      · exact all c later
    · rw [number_append, number_append, zero_number, number_zeros, Nat.zero_mul, Nat.zero_mul,
        Nat.zero_add, Nat.zero_add, List.length_append, List.length_replicate]
      congr 2
      omega

/-- One digit before the point and an exponent after the others. -/
theorem denotes_scientific (style : FloatStyle) (some_digit : digits ≠ [])
    (all : ∀ c ∈ digits, c.isDigit = true) (exponent : Int) :
    Denotes (scientific style digits exponent)
      (number digits * 10 ^ (exponent + 1 - digits.length)) := by
  let tail := (if style.plusSign && decide (0 ≤ exponent) then ['+'] else []) ++ writeInt exponent
  have written : exponent? ('e' :: tail) = some exponent := exponent?_write style.plusSign exponent
  have stops : Stops ('e' :: tail) := by
    rintro c ⟨⟩
    rfl
  match digits with
  | [] => exact absurd rfl some_digit
  | [digit] =>
      have read := @decimal?_whole [digit] tail some_digit all stops
      rw [written] at read
      refine ⟨⟨digit, _, rfl, all digit (by simp)⟩, _, read, ?_⟩
      simp [Decimal.value]
  | digit :: second :: rest =>
      have first : ∀ c ∈ [digit], c.isDigit = true := fun c member => all c (by
        rw [List.mem_singleton.mp member]
        simp)
      have read := @decimal?_point [digit] (second :: rest) _ (by simp) first
        (fun c member => all c (List.mem_cons_of_mem _ member)) stops
      rw [written] at read
      refine ⟨⟨digit, _, rfl, all digit (by simp)⟩, _, read, ?_⟩
      simp only [Decimal.value, List.length_cons, List.singleton_append]
      congr 2
      omega

/-- The zeros that are dropped stand at the end. -/
theorem trimZeros_append (positive : 0 < number digits) :
    trimZeros digits ≠ [] ∧ ∃ count, digits = trimZeros digits ++ List.replicate count '0' := by
  have split : digits = (digits.reverse.dropWhile (· = '0')).reverse ++
      (digits.reverse.takeWhile (· = '0')).reverse := by
    rw [← List.reverse_append, List.takeWhile_append_dropWhile, List.reverse_reverse]
  have zeros : (digits.reverse.takeWhile (· = '0')).reverse =
      List.replicate (digits.reverse.takeWhile (· = '0')).length '0' := by
    rw [List.eq_replicate_iff]
    refine ⟨List.length_reverse, fun c member => ?_⟩
    simpa using List.mem_takeWhile_imp (List.mem_reverse.mp member)
  rw [zeros] at split
  unfold trimZeros
  split
  · rename_i empty
    rw [empty, List.nil_append] at split
    rw [split, number_zeros] at positive
    cases positive
  · rename_i kept
    exact ⟨kept, _, split⟩

/-- A decimal keeps its value in any layout. -/
theorem denotes_writeDecimal (style : FloatStyle) {d : Decimal} (positive : 0 < d.coefficient) :
    Denotes (style.writeDecimal d) d.value := by
  have all : ∀ c ∈ writeNat d.coefficient, c.isDigit = true := fun _ => isDigit_of_mem_writeNat
  have known := number_writeNat d.coefficient
  rcases @trimZeros_append (writeNat d.coefficient) (by omega) with
    ⟨some_digit, count, split⟩
  unfold writeDecimal
  simp only
  generalize trimZeros (writeNat d.coefficient) = kept at some_digit split ⊢
  rw [split] at all known ⊢
  have kept_all : ∀ c ∈ kept, c.isDigit = true := fun c member =>
    all c (List.mem_append_left _ member)
  rw [number_append, number_zeros, List.length_replicate, Nat.add_zero] at known
  rw [List.length_append, List.length_replicate]
  have some_length := List.length_pos_of_ne_nil some_digit
  have value : d.value = number kept *
      10 ^ (d.exponent + (((kept.length + count : Nat) : Int) - 1) + 1 - kept.length) := by
    rw [Decimal.value, ← known, value_shift]
    congr 2
    omega
  rw [value]
  split
  · exact denotes_plain some_digit kept_all _
  · exact denotes_scientific style some_digit kept_all _

end FloatStyle

namespace FloatReader

/-! ## Reading floats -/

/-- No name of a value that is no number starts with a digit. -/
theorem code?_of_denotes {text : List Char} {d : Decimal} (denotes : Denotes text d.value) :
    code? text = some d.code := by
  rcases denotes with ⟨⟨c, rest, rfl, digit⟩, d', read, same⟩
  have lower : c.toLower = c := by
    simp only [Char.isDigit, Bool.and_eq_true, decide_eq_true_eq] at digit
    refine dif_neg fun letter => ?_
    have most : c.toNat ≤ 57 := UInt32.le_iff_toNat_le.mp digit.2
    have least : 65 ≤ c.toNat := UInt32.le_iff_toNat_le.mp letter.1
    omega
  have unnamed {name : Char} {others : List Char} (letter : name.isDigit = false) :
      String.ofList ((c :: rest).map Char.toLower) ≠ String.ofList (name :: others) := by
    intro named
    have heads := congrArg String.toList named
    simp only [String.toList_ofList, List.map_cons, List.cons.injEq, lower] at heads
    rw [← heads.1, digit] at letter
    cases letter
  unfold code?
  split
  · rename_i named
    exact absurd named (@unnamed 'i' ['n', 'f'] rfl)
  · rename_i named
    exact absurd named (@unnamed 'i' ['n', 'f', 'i', 'n', 'i', 't', 'y'] rfl)
  · rename_i named
    exact absurd named (@unnamed 'n' ['a', 'n'] rfl)
  · rw [read, Option.map_some, Decimal.code_congr same]

theorem denotes_writeCode (style : FloatStyle) {code : Nat} (finite : code < infinity) :
    ∃ d : Decimal, Denotes (style.writeCode code) d.value ∧ d.code = code := by
  unfold FloatStyle.writeCode
  by_cases zero : code = 0
  · rw [if_pos zero, zero]
    exact ⟨⟨0, -1⟩, ⟨⟨'0', _, rfl, rfl⟩, ⟨0, -1⟩, rfl, rfl⟩, rfl⟩
  · have read := Decimal.code_shortest style.tie finite
    have some_digits : 0 < (Decimal.shortest style.tie code).coefficient := by
      rcases Nat.eq_zero_or_pos (Decimal.shortest style.tie code).coefficient with none | positive
      · rw [Decimal.code, if_pos none] at read
        exact absurd read.symm zero
      · exact positive
    rw [if_neg zero]
    exact ⟨_, FloatStyle.denotes_writeDecimal style some_digits, read⟩

/-- A finite float is read back from its text. -/
theorem read?_write (style : FloatStyle) {x : Float} (finite : isFinite x = true) :
    read? (style.write x) = some x := by
  have bound : code x < infinity := by simpa [isFinite] using finite
  have number : isNaN x = false := by
    simp only [isNaN, decide_eq_false_iff_not]
    omega
  rcases denotes_writeCode style bound with ⟨d, denotes, code_eq⟩
  have read := code?_of_denotes denotes
  rw [code_eq] at read
  have whole := toFloat_code x
  unfold FloatStyle.write
  simp only [number, finite, if_true, Bool.false_eq_true, if_false]
  cases negative : isNegative x with
  | true =>
      rw [negative] at whole
      simp only [if_true, read?, read, Option.map_some, whole]
  | false =>
      rw [negative] at whole
      rcases denotes.starts with ⟨c, rest, text, digit⟩
      simp only [Bool.false_eq_true, if_false]
      rw [text] at read ⊢
      unfold read?
      split
      · rename_i same
        rw [(List.cons.inj same).1] at digit
        cases digit
      · rename_i same
        rw [(List.cons.inj same).1] at digit
        cases digit
      · rw [read, Option.map_some, whole]

end FloatReader

end RuleTree
