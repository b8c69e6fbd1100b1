import RuleTree.Number.Digits
import RuleTree.Text.Blank

/-!
# Calendar dates

Dates of the Gregorian calendar, extended without limit to the years before it (year 0 precedes year
1), between the years -262143 and 262142. They are written as year, month and day with hyphens:
years from 0 to 9999 with four digits, all others with a sign and at least four. Reading is more
generous: months and days may have one digit, and blanks may come before each number. In a stored
date blanks may come after each number as well.
-/

namespace RuleTree

namespace Date

/-- Whether the year has a 29th of February. -/
def isLeap (year : Int) : Bool :=
  year % 4 == 0 && (year % 100 != 0 || year % 400 == 0)

/-- How many days a month has; there are none outside of the months 1 to 12. -/
def monthLength (year : Int) (month : Nat) : Nat :=
  match month with
  | 1 | 3 | 5 | 7 | 8 | 10 | 12 => 31
  | 4 | 6 | 9 | 11 => 30
  | 2 => if isLeap year then 29 else 28
  | _ => 0

/-- The days of the calendar. -/
def Valid (year : Int) (month day : Nat) : Prop :=
  -262143 ≤ year ∧ year ≤ 262142 ∧ 1 ≤ day ∧ day ≤ monthLength year month

instance (year : Int) (month day : Nat) : Decidable (Valid year month day) :=
  inferInstanceAs (Decidable (_ ∧ _))

end Date

/-- A day of the calendar. -/
structure Date where
  year : Int
  month : Nat
  day : Nat
  valid : Date.Valid year month day
deriving DecidableEq

namespace Date

/-- The date with these parts, if there is one. -/
def ofParts? (year : Int) (month day : Nat) : Option Date :=
  if valid : Valid year month day then some ⟨year, month, day, valid⟩ else none

@[simp] theorem ofParts?_parts (date : Date) :
    ofParts? date.year date.month date.day = some date := by
  simp [ofParts?, date.valid]

/-- Earlier dates come first. -/
def order (left right : Date) : Ordering :=
  (compare left.year right.year).then
    ((compare left.month right.month).then (compare left.day right.day))

/-- A year with four digits, with a sign as well if it lies outside of 0 to 9999. -/
def writeYear (year : Int) : List Char :=
  let digits := Digits.padded 4 (Digits.writeNat year.natAbs)
  if year < 0 then '-' :: digits
  else if 9999 < year then '+' :: digits
  else digits

/-- Two digits. -/
def writeTwo (n : Nat) : List Char := Digits.padded 2 (Digits.writeNat n)

/-- Year, month and day with hyphens between them. -/
def write (date : Date) : List Char :=
  writeYear date.year ++ '-' :: (writeTwo date.month ++ '-' :: writeTwo date.day)

/-- The text of a date. -/
def text (date : Date) : String := String.ofList date.write

/-- A number of at least one and at most `most` digits, and the text after it. -/
def readNumber? (most : Nat) (text : List Char) : Option (Nat × List Char) :=
  let digits := (text.take most).takeWhile Char.isDigit
  (Digits.readNat? digits).map fun n => (n, text.drop digits.length)

/-- A year: with a sign any number of digits, without one at most four. -/
def readYear? (text : List Char) : Option (Int × List Char) :=
  match Text.trimLeft text with
  | '-' :: rest => (readNumber? rest.length rest).map fun (n, rest) => (-Int.ofNat n, rest)
  | '+' :: rest => (readNumber? rest.length rest).map fun (n, rest) => (Int.ofNat n, rest)
  | rest => (readNumber? 4 rest).map fun (n, rest) => (Int.ofNat n, rest)

/-- A hyphen and a number of one or two digits, with blanks allowed before the digits. -/
def readPart? : List Char → Option (Nat × List Char)
  | '-' :: rest => readNumber? 2 (Text.trimLeft rest)
  | _ => none

/-- Reads a whole text as a date, given what is passed over after each number. -/
def readWith? (gap : List Char → List Char) (text : List Char) : Option Date := do
  let (year, rest) ← readYear? text
  let (month, rest) ← readPart? (gap rest)
  let (day, rest) ← readPart? (gap rest)
  if gap rest = [] then ofParts? year month day else none

/-- Reads a whole text as a date. -/
def read? (text : List Char) : Option Date := readWith? id text

/-- Reads a whole text as a stored date. -/
def readStored? (text : List Char) : Option Date := readWith? Text.trimLeft text

end Date

end RuleTree
