import Mathlib.Algebra.Ring.Nat
import Mathlib.Data.List.TakeWhile
import RuleTree.Block.Reader

/-!
# Literals read back

Integers and dates are read back from their texts, and trimming does nothing to the texts of
numbers and dates (`Block.readInt64?_write`, `Date.readWith?_write`, `Text.trim_solid`).
-/

namespace RuleTree

/-! ## Blanks -/

namespace Text

theorem trimLeft_solid {text : List Char} (solid : ∀ c ∈ text, isBlank c = false) :
    trimLeft text = text := by
  cases text with
  | nil => rfl
  | cons c rest =>
      unfold trimLeft
      rw [List.dropWhile_cons_of_neg]
      simp [solid c]

theorem trim_solid {text : List Char} (solid : ∀ c ∈ text, isBlank c = false) :
    trim text = text := by
  have backwards : ∀ c ∈ text.reverse, isBlank c = false := by simpa using solid
  unfold trim
  rw [trimLeft_solid solid, trimLeft_solid backwards, List.reverse_reverse]

theorem not_blank_of_isDigit {c : Char} (digit : c.isDigit = true) : isBlank c = false := by
  simp only [Char.isDigit, Bool.and_eq_true, decide_eq_true_eq] at digit
  have lower : 48 ≤ c.toNat := UInt32.le_iff_toNat_le.mp digit.1
  have upper : c.toNat ≤ 57 := UInt32.le_iff_toNat_le.mp digit.2
  simp only [isBlank, Bool.or_eq_false_iff, Bool.and_eq_false_iff, decide_eq_false_iff_not,
    beq_eq_false_iff_ne]
  omega

end Text

/-! ## Integers -/

namespace Digits

theorem length_writeNat_le {n width : Nat} (positive : 0 < width) (bound : n < 10 ^ width) :
    (writeNat n).length ≤ width :=
  (Nat.length_toDigits_le_iff (by decide) positive).mpr bound

theorem isDigit_of_mem_padded {width n : Nat} {c : Char} (member : c ∈ padded width (writeNat n)) :
    c.isDigit = true := by
  rcases List.mem_append.mp member with zero | digit
  · rw [(List.mem_replicate.mp zero).2]
    rfl
  · exact isDigit_of_mem_writeNat digit

theorem length_padded {width n : Nat} (bound : (writeNat n).length ≤ width) :
    (padded width (writeNat n)).length = width := by
  rw [padded, List.length_append, List.length_replicate]
  omega

theorem padded_ne_nil (width n : Nat) : padded width (writeNat n) ≠ [] := by
  intro empty
  exact Nat.toDigits_ne_nil (List.append_eq_nil_iff.mp empty).2

theorem readNat?_padded (width n : Nat) : readNat? (padded width (writeNat n)) = some n := by
  have digits : (padded width (writeNat n)).all Char.isDigit = true :=
    List.all_eq_true.mpr fun _ member => isDigit_of_mem_padded member
  rw [readNat?, if_pos ⟨padded_ne_nil width n, digits⟩, padded, Nat.ofDigitChars_append,
    Nat.ofDigitChars_replicate_zero, Nat.mul_zero]
  exact congrArg some Nat.ofDigitChars_ten_toDigits

/-- An integer is written with digits and at most a minus sign. -/
theorem mem_writeInt {n : Int} {c : Char} (member : c ∈ writeInt n) :
    c.isDigit = true ∨ c = '-' := by
  cases n with
  | ofNat n => exact .inl (isDigit_of_mem_writeNat member)
  | negSucc n =>
      rcases List.mem_cons.mp member with minus | digit
      · exact .inr minus
      · exact .inl (isDigit_of_mem_writeNat digit)

theorem solid_writeInt (n : Int) : ∀ c ∈ writeInt n, Text.isBlank c = false := by
  intro c member
  rcases mem_writeInt member with digit | rfl
  · exact Text.not_blank_of_isDigit digit
  · decide

end Digits

namespace Block

theorem readInt64?_write (n : Int64) : readInt64? (Digits.writeInt n.toInt) = some n := by
  rw [readInt64?, Digits.readInt?_writeInt]
  exact Word.ofInt?_toInt n

end Block

/-! ## Dates -/

namespace Date

theorem readNumber?_append {most : Nat} {digits rest : List Char}
    (all : ∀ c ∈ digits, c.isDigit = true) (short : digits.length ≤ most)
    (stops : digits.length = most ∨ ∀ c ∈ rest.head?, c.isDigit = false) :
    readNumber? most (digits ++ rest) = (Digits.readNat? digits).map fun n => (n, rest) := by
  have taken : ((digits ++ rest).take most).takeWhile Char.isDigit = digits := by
    rw [List.take_append, List.take_of_length_le short, List.takeWhile_append_of_pos all]
    rcases stops with full | other
    · simp [full]
    · cases rest with
      | nil => simp
      | cons c others =>
          have different : c.isDigit = false := other c rfl
          cases most - digits.length with
          | zero => simp
          | succ k => simp [different]
  unfold readNumber?
  rw [taken]
  simp only [List.drop_left]

theorem readPart?_write {n : Nat} (small : n < 100) (rest : List Char) :
    readPart? ('-' :: (writeTwo n ++ rest)) = some (n, rest) := by
  have digits : ∀ c ∈ writeTwo n, c.isDigit = true := fun _ => Digits.isDigit_of_mem_padded
  have length : (writeTwo n).length = 2 :=
    Digits.length_padded (Digits.length_writeNat_le (by decide) small)
  have solid : Text.trimLeft (writeTwo n ++ rest) = writeTwo n ++ rest := by
    cases two : writeTwo n with
    | nil => simp [two] at length
    | cons c others =>
        unfold Text.trimLeft
        rw [List.cons_append, List.dropWhile_cons_of_neg]
        simp [Text.not_blank_of_isDigit (digits c (by simp [two]))]
  rw [readPart?, solid, readNumber?_append digits (Nat.le_of_eq length) (.inl length), writeTwo,
    Digits.readNat?_padded]
  rfl

theorem readYear?_write (year : Int) (rest : List Char) :
    readYear? (writeYear year ++ '-' :: rest) = some (year, '-' :: rest) := by
  let digits := Digits.padded 4 (Digits.writeNat year.natAbs)
  have all : ∀ c ∈ digits, c.isDigit = true := fun _ => Digits.isDigit_of_mem_padded
  have known : Digits.readNat? digits = some year.natAbs := Digits.readNat?_padded 4 _
  have signed {most : Nat} (short : digits.length ≤ most) :
      readNumber? most (digits ++ '-' :: rest) = some (year.natAbs, '-' :: rest) := by
    rw [readNumber?_append all short (.inr (by rintro c ⟨⟩; rfl)), known]
    rfl
  by_cases negative : year < 0
  · have written : writeYear year = '-' :: digits := if_pos negative
    have solid : Text.trimLeft ('-' :: (digits ++ '-' :: rest)) =
        '-' :: (digits ++ '-' :: rest) := List.dropWhile_cons_of_neg (by decide)
    rw [written, List.cons_append, readYear?, solid]
    simp only
    rw [signed (by simp)]
    simp only [Option.map_some, Option.some.injEq, Prod.mk.injEq, and_true,
      Int.ofNat_eq_natCast]
    omega
  · by_cases long : 9999 < year
    · have written : writeYear year = '+' :: digits := by
        rw [writeYear, if_neg negative, if_pos long]
      have solid : Text.trimLeft ('+' :: (digits ++ '-' :: rest)) =
          '+' :: (digits ++ '-' :: rest) := List.dropWhile_cons_of_neg (by decide)
      rw [written, List.cons_append, readYear?, solid]
      simp only
      rw [signed (by simp)]
      simp only [Option.map_some, Option.some.injEq, Prod.mk.injEq, and_true,
        Int.ofNat_eq_natCast]
      omega
    · have written : writeYear year = digits := by
        rw [writeYear, if_neg negative, if_neg long]
      have short : (Digits.writeNat year.natAbs).length ≤ 4 :=
        Digits.length_writeNat_le (by decide) (by omega)
      have length : digits.length = 4 := Digits.length_padded short
      have read := signed (Nat.le_of_eq length)
      rw [written]
      cases front : digits with
      | nil => simp [front] at length
      | cons c others =>
          have digit : c.isDigit = true := all c (by simp [front])
          have solid : Text.trimLeft (c :: others ++ '-' :: rest) = c :: others ++ '-' :: rest := by
            apply List.dropWhile_cons_of_neg
            simp [Text.not_blank_of_isDigit digit]
          rw [front] at read
          unfold readYear?
          rw [solid]
          split
          · rename_i same
            rw [(List.cons.inj same).1] at digit
            cases digit
          · rename_i same
            rw [(List.cons.inj same).1] at digit
            cases digit
          · rw [read]
            simp only [Option.map_some, Option.some.injEq, Prod.mk.injEq, and_true,
              Int.ofNat_eq_natCast]
            omega

theorem month_lt (date : Date) : date.month < 100 := by
  rcases date.valid with ⟨_, _, least, most⟩
  by_contra large
  have none_ : monthLength date.year date.month = 0 := by
    unfold monthLength
    split <;> omega
  omega

theorem day_lt (date : Date) : date.day < 100 := by
  rcases date.valid with ⟨_, _, least, most⟩
  have bound : monthLength date.year date.month ≤ 31 := by
    have february (leap : Bool) : (if leap = true then 29 else 28) ≤ 31 := by
      cases leap <;> decide
    unfold monthLength
    split <;> first | decide | exact february _
  omega

/-- A date is read back from its text, whatever is passed over after numbers but hyphens. -/
theorem readWith?_write (date : Date) {gap : List Char → List Char}
    (stays : ∀ rest, gap ('-' :: rest) = '-' :: rest) (ends : gap [] = []) :
    readWith? gap date.write = some date := by
  unfold readWith? write
  rw [readYear?_write]
  simp only [Option.bind_eq_bind, Option.bind_some, stays]
  rw [readPart?_write date.month_lt]
  simp only [Option.bind_some, stays]
  have last := readPart?_write date.day_lt []
  rw [List.append_nil] at last
  rw [last]
  simp [ends]

theorem read?_write (date : Date) : read? date.write = some date :=
  readWith?_write date (fun _ => rfl) rfl

theorem readStored?_write (date : Date) : readStored? date.write = some date :=
  readWith?_write date (fun _ => List.dropWhile_cons_of_neg (by decide)) rfl

theorem solid_write (date : Date) : ∀ c ∈ date.write, Text.isBlank c = false := by
  have padded {width n : Nat} {c : Char} (member : c ∈ Digits.padded width (Digits.writeNat n)) :
      Text.isBlank c = false := Text.not_blank_of_isDigit (Digits.isDigit_of_mem_padded member)
  have year {c : Char} (member : c ∈ writeYear date.year) : Text.isBlank c = false := by
    unfold writeYear at member
    simp only at member
    split at member
    · rcases List.mem_cons.mp member with rfl | digit
      · decide
      · exact padded digit
    · split at member
      · rcases List.mem_cons.mp member with rfl | digit
        · decide
        · exact padded digit
      · exact padded member
  intro c member
  unfold write at member
  rcases List.mem_append.mp member with here | member
  · exact year here
  rcases List.mem_cons.mp member with rfl | member
  · decide
  rcases List.mem_append.mp member with here | member
  · exact padded here
  rcases List.mem_cons.mp member with rfl | here
  · decide
  · exact padded here

end Date

/-! ## Floats -/

namespace FloatStyle

/-- The text holds no blanks but a point or an exponent, by which a reader tells it from the text of
an integer. -/
structure Marked (text : List Char) : Prop where
  solid : ∀ c ∈ text, Text.isBlank c = false
  mark : ∃ c ∈ text, c = '.' ∨ c = 'e'

theorem Marked.cons {text : List Char} (marked : Marked text) {c : Char}
    (solid : Text.isBlank c = false) : Marked (c :: text) where
  solid other member := by
    rcases List.mem_cons.mp member with rfl | later
    · exact solid
    · exact marked.solid other later
  mark := by
    rcases marked.mark with ⟨other, member, mark⟩
    exact ⟨other, List.mem_cons_of_mem _ member, mark⟩

theorem marked_append {before after : List Char} {c : Char} (mark : c = '.' ∨ c = 'e')
    (first : ∀ d ∈ before, Text.isBlank d = false)
    (second : ∀ d ∈ after, Text.isBlank d = false) : Marked (before ++ c :: after) where
  solid other member := by
    rcases List.mem_append.mp member with here | member
    · exact first other here
    rcases List.mem_cons.mp member with rfl | later
    · rcases mark with rfl | rfl <;> decide
    · exact second other later
  mark := ⟨c, by simp, mark⟩

variable {digits : List Char}

theorem trimZeros_spec (solid : ∀ c ∈ digits, Text.isBlank c = false) :
    trimZeros digits ≠ [] ∧ ∀ c ∈ trimZeros digits, Text.isBlank c = false := by
  unfold trimZeros
  split
  · exact ⟨by simp, by simp [Text.isBlank]⟩
  · rename_i kept some_kept
    refine ⟨some_kept, fun c member => solid c ?_⟩
    have back := (List.dropWhile_sublist _).subset (List.mem_reverse.mp member)
    exact List.mem_reverse.mp back

theorem marked_plain (solid : ∀ c ∈ digits, Text.isBlank c = false) (point : Int) :
    Marked (plain digits point) := by
  have zeros (count : Nat) : ∀ c ∈ List.replicate count '0', Text.isBlank c = false := by
    intro c member
    rw [(List.mem_replicate.mp member).2]
    decide
  have zero : ∀ c ∈ ['0'], Text.isBlank c = false := by simp [Text.isBlank]
  unfold plain
  split
  · rename_i p
    split
    · exact @marked_append ['0'] digits '.' (.inl rfl) zero solid
    · split
      · refine marked_append (.inl rfl) ?_ zero
        intro c member
        rcases List.mem_append.mp member with here | later
        · exact solid c here
        · exact zeros _ c later
      · refine marked_append (.inl rfl) ?_ ?_
        · exact fun c member => solid c (List.mem_of_mem_take member)
        · exact fun c member => solid c (List.mem_of_mem_drop member)
  · refine @marked_append ['0'] _ '.' (.inl rfl) zero ?_
    intro c member
    rcases List.mem_append.mp member with here | later
    · exact zeros _ c here
    · exact solid c later

theorem marked_scientific (style : FloatStyle) (some_digit : digits ≠ [])
    (solid : ∀ c ∈ digits, Text.isBlank c = false) (exponent : Int) :
    Marked (scientific style digits exponent) := by
  have tail : ∀ c ∈ (if style.plusSign && decide (0 ≤ exponent) then ['+'] else []) ++
      Digits.writeInt exponent, Text.isBlank c = false := by
    intro c member
    rcases List.mem_append.mp member with sign | digit
    · split at sign
      · rw [List.mem_singleton.mp sign]
        decide
      · cases sign
    · exact Digits.solid_writeInt exponent c digit
  match digits with
  | [] => exact absurd rfl some_digit
  | [digit] => exact @marked_append [digit] _ 'e' (.inr rfl) solid tail
  | digit :: second :: others =>
      have rest_solid : ∀ c ∈ second :: others, Text.isBlank c = false := fun c member =>
        solid c (List.mem_cons_of_mem _ member)
      have marked := marked_append (.inr rfl) rest_solid tail
      exact (marked.cons (by decide)).cons (solid digit (by simp))

/-- The text of a finite float does not look like the text of an integer. -/
theorem marked_write (style : FloatStyle) {x : Float} (finite : Binary64.isFinite x = true) :
    Marked (style.write x) := by
  have number : Binary64.isNaN x = false := by
    simp only [Binary64.isFinite, Binary64.isNaN, decide_eq_true_eq, decide_eq_false_iff_not]
      at finite ⊢
    omega
  have magnitude : Marked (style.writeCode (Binary64.code x)) := by
    unfold writeCode
    split
    · exact ⟨by simp [Text.isBlank], '.', by simp, .inl rfl⟩
    · unfold writeDecimal
      have digits : ∀ c ∈
          Digits.writeNat (Decimal.shortest style.tie (Binary64.code x)).coefficient,
          Text.isBlank c = false := fun c member =>
        Text.not_blank_of_isDigit (Digits.isDigit_of_mem_writeNat member)
      rcases trimZeros_spec digits with ⟨some_digit, solid⟩
      simp only
      split
      · exact marked_plain solid _
      · exact marked_scientific style some_digit solid _
  unfold write
  simp only [number, finite, if_true, Bool.false_eq_true, if_false]
  split
  · exact magnitude.cons (by decide)
  · exact magnitude

end FloatStyle

end RuleTree
