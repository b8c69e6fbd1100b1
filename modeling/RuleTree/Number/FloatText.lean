import RuleTree.Number.Decimal

/-!
# Floats in decimal text

A `FloatStyle` says between which decimal exponents a float is written with a plain point and how
an exponent is marked outside of them. The digits are always the fewest that read back.
-/

namespace RuleTree

/-- How floats are laid out. -/
structure FloatStyle where
  /-- The least decimal exponent of the leading digit that is written without an exponent. -/
  leastPlain : Int
  /-- The first decimal exponent that is again written with an exponent. -/
  plainBelow : Int
  /-- Whether a positive exponent carries a plus sign. -/
  plusSign : Bool
  /-- Which of two equally near decimals is written. -/
  tie : Decimal.Tie

namespace FloatStyle

/-- Rule documents and messages: plain from `0.0001` to below `1e16`. -/
def message : FloatStyle := ⟨-4, 16, false, .away⟩

/-- JSON text: plain from `0.00001` to below `1e+16`. -/
def json : FloatStyle := ⟨-5, 16, true, .even⟩

/-- Drops the zeros at the end of the digits, but not the last digit left. -/
def trimZeros (digits : List Char) : List Char :=
  match (digits.reverse.dropWhile (· = '0')).reverse with
  | [] => ['0']
  | kept => kept

/-- Digits with a point after the first `point` of them, at least one digit on either side. -/
def plain (digits : List Char) (point : Int) : List Char :=
  match point with
  | .ofNat p =>
    if p = 0 then '0' :: '.' :: digits
    else if digits.length ≤ p then
      digits ++ List.replicate (p - digits.length) '0' ++ ['.', '0']
    else digits.take p ++ '.' :: digits.drop p
  | .negSucc p => '0' :: '.' :: (List.replicate (p + 1) '0' ++ digits)

/-- One digit, a point if more digits follow, and the exponent of the first digit. -/
def scientific (style : FloatStyle) (digits : List Char) (exponent : Int) : List Char :=
  let sign := if style.plusSign && decide (0 ≤ exponent) then ['+'] else []
  match digits with
  | [] => []
  | [digit] => digit :: 'e' :: (sign ++ Digits.writeInt exponent)
  | digit :: rest => digit :: '.' :: (rest ++ 'e' :: (sign ++ Digits.writeInt exponent))

/-- A decimal in this style. -/
def writeDecimal (style : FloatStyle) (d : Decimal) : List Char :=
  let digits := Digits.writeNat d.coefficient
  let exponent := d.exponent + (digits.length - 1)
  let digits := trimZeros digits
  if style.leastPlain ≤ exponent && exponent < style.plainBelow then plain digits (exponent + 1)
  else scientific style digits exponent

/-- The magnitude of a finite float. -/
def writeCode (style : FloatStyle) (code : Nat) : List Char :=
  if code = 0 then ['0', '.', '0'] else style.writeDecimal (Decimal.shortest style.tie code)

/-- A float; infinities and the number that is none have names of their own. -/
def write (style : FloatStyle) (x : Float) : List Char :=
  if Binary64.isNaN x then "NaN".toList
  else
    let magnitude :=
      if Binary64.isFinite x then style.writeCode (Binary64.code x) else "inf".toList
    if Binary64.isNegative x then '-' :: magnitude else magnitude

end FloatStyle

/-- The text of a float in rule documents and messages. -/
def floatText (x : Float) : String := String.ofList (FloatStyle.message.write x)

namespace FloatReader

/-- The exponent part of a float: nothing, or `e` with an optional sign and digits. -/
def exponent? : List Char → Option Int
  | [] => some 0
  | c :: rest => if c = 'e' ∨ c = 'E' then Digits.readInt? rest else none

/--
A magnitude in decimal: digits before and after an optional point, at least one in all, and an
optional exponent.
-/
def decimal? (text : List Char) : Option Decimal :=
  let whole := text.takeWhile Char.isDigit
  let rest := text.dropWhile Char.isDigit
  let (fraction, tail) :=
    match rest with
    | '.' :: more => (more.takeWhile Char.isDigit, more.dropWhile Char.isDigit)
    | _ => ([], rest)
  let digits := whole ++ fraction
  if digits = [] then none
  else (exponent? tail).map fun e => ⟨Nat.ofDigitChars 10 digits 0, e - fraction.length⟩

/-- The code of a magnitude: a decimal, or one of the names of the values that are no numbers. -/
def code? (text : List Char) : Option Nat :=
  match String.ofList (text.map Char.toLower) with
  | "inf" | "infinity" => some Binary64.infinity
  | "nan" => some Binary64.quietNaN
  | _ => (decimal? text).map Decimal.code

/-- Reads a float: an optional sign, then a magnitude. -/
def read? : List Char → Option Float
  | '-' :: rest => (code? rest).map (Binary64.toFloat true)
  | '+' :: rest => (code? rest).map (Binary64.toFloat false)
  | text => (code? text).map (Binary64.toFloat false)

end FloatReader

end RuleTree
