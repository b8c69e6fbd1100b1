import RuleTree.Date
import RuleTree.Number.FloatText
import RuleTree.Number.Word
import RuleTree.Text.Split
import RuleTree.Toml.Basic
import RuleTree.Toml.Token

/-!
# Numbers, truth values, dates and times

The values that are written without quotes. Digits may have single underscores between them,
integers have no leading zeros, and a float has a fraction, an exponent or a name. Dates and times
get their normal form: a `T` between date and time, a `Z` for no offset, and no zeros at the end of
a fraction.
-/

namespace RuleTree.Toml

/-- The digits of a number without the single underscores that may stand between them. -/
def digits? (isDigit : Char → Bool) (text : List Char) : Option (List Char) :=
  let groups := Text.splitAt '_' text
  if groups.all fun group => !group.isEmpty && group.all isDigit then some groups.flatten else none

/-- The digits of a decimal integer, which has no leading zeros. -/
def wholeDigits? (text : List Char) : Option (List Char) := do
  let digits ← digits? Char.isDigit text
  match digits with
  | '0' :: _ :: _ => none
  | _ => some digits

/-- A sign, if there is one, and the text after it. -/
def sign : List Char → List Char × List Char
  | '+' :: rest => ([], rest)
  | '-' :: rest => (['-'], rest)
  | text => ([], text)

/-! ## Integers -/

/-- An integer to a base other than ten. -/
def basedInteger? (base : Nat) (text : List Char) : Option Int64 := do
  let digit? c := (hexValue? c).filter (· < base)
  let digits ← digits? (fun c => (digit? c).isSome) text
  Word.ofInt? (← readBase? base digit? digits)

/-- An integer of 64 bits. -/
def integer? : List Char → Option Int64
  | '0' :: 'x' :: digits => basedInteger? 16 digits
  | '0' :: 'o' :: digits => basedInteger? 8 digits
  | '0' :: 'b' :: digits => basedInteger? 2 digits
  | text => do
    let (minus, digits) := sign text
    let n ← Digits.readInt? (minus ++ (← wholeDigits? digits))
    Word.ofInt? n

/-! ## Floats -/

/-- The digits of the exponent of a float, with a sign. -/
def exponentDigits? (text : List Char) : Option (List Char) := do
  let (minus, digits) := sign text
  some (minus ++ (← digits? Char.isDigit digits))

/-- The digits of a float before an exponent: a whole part and perhaps a fraction. -/
def mantissaDigits? (text : List Char) : Option (List Char) :=
  match Text.splitAt '.' text with
  | [whole] => wholeDigits? whole
  | [whole, fraction] => do
    some ((← wholeDigits? whole) ++ '.' :: (← digits? Char.isDigit fraction))
  | _ => none

/-- A float without underscores, if it has a fraction or an exponent. -/
def floatDigits? (text : List Char) : Option (List Char) :=
  match text.span fun c => c ≠ 'e' ∧ c ≠ 'E' with
  | (mantissa, []) => if '.' ∈ mantissa then mantissaDigits? mantissa else none
  | (mantissa, _ :: exponent) => do
    some ((← mantissaDigits? mantissa) ++ 'e' :: (← exponentDigits? exponent))

/-- A float; one that is too large is an error unless it is negative. -/
def float? (text : List Char) : Option Float :=
  let (minus, magnitude) := sign text
  if magnitude = "inf".toList ∨ magnitude = "nan".toList then FloatReader.read? (minus ++ magnitude)
  else do
    let x ← FloatReader.read? (minus ++ (← floatDigits? magnitude))
    if !Binary64.isFinite x && !Binary64.isNegative x then none else some x

/-! ## Dates and times -/

/-- A number of two digits that is not above a bound. -/
def twoDigits? (bound : Nat) (text : List Char) : Option Nat := do
  let n ← Digits.readNat? text
  if text.length = 2 ∧ n ≤ bound then some n else none

/-- A date with a year of four digits. -/
def dateText? (text : List Char) : Option (List Char) :=
  match Text.splitAt '-' text with
  | [year, month, day] => do
    let date ← Date.ofParts? (Int.ofNat (← Digits.readNat? year)) (← twoDigits? 12 month)
      (← twoDigits? 31 day)
    if year.length = 4 then some date.write else none
  | _ => none

/-- The digits of a fraction of a second that count: the first nine, without zeros at the end. -/
def fractionText (digits : List Char) : List Char :=
  match ((digits.take 9).reverse.dropWhile (· = '0')).reverse with
  | [] => []
  | kept => '.' :: kept

/-- Whole seconds with or without a fraction; there may be a leap second. -/
def secondText? (text : List Char) : Option (List Char) :=
  match Text.splitAt '.' text with
  | [second] => (twoDigits? 60 second).map fun _ => second
  | [second, fraction] => do
    let _ ← twoDigits? 60 second
    let _ ← Digits.readNat? fraction
    some (second ++ fractionText fraction)
  | _ => none

/-- What hours and offsets there are. -/
structure ClockBounds where
  hour : Nat
  offsetHour : Nat
  offsetMinute : Nat

/-- The hours of a day and the minutes of an hour. -/
def usualClock : ClockBounds := ⟨23, 23, 59⟩

/-- Any two digits in an offset, and the end of a day as an hour of its own. -/
def generousClock : ClockBounds := ⟨24, 99, 99⟩

/-- A time of day. -/
def timeText? (clock : ClockBounds) (text : List Char) : Option (List Char) :=
  match Text.splitAt ':' text with
  | [hour, minute, second] => do
    let _ ← twoDigits? clock.hour hour
    let _ ← twoDigits? 59 minute
    some (hour ++ ':' :: (minute ++ ':' :: (← secondText? second)))
  | _ => none

/-- How many minutes a day has, which no offset exceeds. -/
def minutesOfDay : Nat := 24 * 60

/-- The offset of a time from that of Greenwich, which is never a negative zero. -/
def offsetText? (clock : ClockBounds) : List Char → Option (List Char)
  | [] => some []
  | ['Z'] | ['z'] => some ['Z']
  | c :: text =>
    match Text.splitAt ':' text with
    | [hour, minute] => do
      let minutes := 60 * (← twoDigits? clock.offsetHour hour)
        + (← twoDigits? clock.offsetMinute minute)
      if (c = '+' ∨ c = '-') ∧ minutes ≤ minutesOfDay then
        some ((if minutes = 0 then '+' else c)
          :: (Date.writeTwo (minutes / 60) ++ ':' :: Date.writeTwo (minutes % 60)))
      else none
    | _ => none

/-- Whether a character begins an offset. -/
def beginsOffset (c : Char) : Bool := c == 'Z' || c == 'z' || c == '+' || c == '-'

/-- A date, a time, or a date with a time and perhaps an offset. -/
def momentText? (clock : ClockBounds) (text : List Char) : Option (List Char) :=
  match dateText? text with
  | some date => some date
  | none =>
    match timeText? clock text with
    | some time => some time
    | none => do
      let date ← dateText? (text.take 10)
      match text.drop 10 with
      | c :: rest =>
        let (time, offset) := rest.span fun c => !beginsOffset c
        if c = 'T' ∨ c = 't' ∨ c = ' ' then
          some (date ++ 'T' :: ((← timeText? clock time) ++ (← offsetText? clock offset)))
        else none
      | [] => none

/-- A date or time as a value. -/
def moment? (clock : ClockBounds) (text : List Char) : Option Toml :=
  (momentText? clock text).map fun text => moment (String.ofList text)

/-! ## Any of them -/

/-- The value that is written as the given characters. -/
def scalar? (characters : List Char) : Option Toml :=
  if characters = "true".toList then some (.boolean true)
  else if characters = "false".toList then some (.boolean false)
  else
    ((integer? characters).map integer).or
      (((float? characters).map float).or
        (moment? usualClock characters))

end RuleTree.Toml
