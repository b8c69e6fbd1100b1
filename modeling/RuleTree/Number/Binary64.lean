/-!
# The binary64 format in exact arithmetic

Dropping the sign bit of a binary64 pattern leaves a natural number, the *code* of its magnitude.
Codes number the magnitudes in increasing order, the code of infinity comes right after the
largest finite one, and rounding a ratio to the nearest magnitude is a computation on natural
numbers (`nearest`).
-/

namespace RuleTree.Binary64

/-- The code of infinity. Larger codes are no numbers. -/
def infinity : Nat := 0x7FF0000000000000

/-- How many codes share an exponent. -/
def binade : Nat := 0x10000000000000

/-- The sign bit. -/
def signBit : Nat := 0x8000000000000000

/-- The code of what is no number. -/
def quietNaN : Nat := 0x7FF8000000000000

/-- The number `mantissa · 2 ^ exponent`. -/
structure Dyadic where
  mantissa : Nat
  exponent : Int
deriving Repr, DecidableEq

/-- The number that a finite code stands for. -/
def dyadic (code : Nat) : Dyadic :=
  if code < binade then ⟨code, -1074⟩
  else ⟨binade + code % binade, Int.ofNat (code / binade) - 1075⟩

/-- A nonnegative ratio. -/
structure Ratio where
  num : Nat
  den : Nat

/-- A ratio multiplied by a power of two. -/
def Ratio.shift (r : Ratio) (exponent : Int) : Ratio :=
  match exponent with
  | .ofNat k => ⟨r.num * Nat.pow 2 k, r.den⟩
  | .negSucc k => ⟨r.num, r.den * Nat.pow 2 (k + 1)⟩

/-- A ratio multiplied by a power of ten. -/
def Ratio.shiftTen (r : Ratio) (exponent : Int) : Ratio :=
  match exponent with
  | .ofNat k => ⟨r.num * Nat.pow 10 k, r.den⟩
  | .negSucc k => ⟨r.num, r.den * Nat.pow 10 (k + 1)⟩

/-- The largest natural number that is not above the ratio. -/
def Ratio.floor (r : Ratio) : Nat := r.num / r.den

/-- The nearest natural number, halves to the even neighbour. -/
def Ratio.round (r : Ratio) : Nat :=
  let below := r.num / r.den
  let rest := r.num % r.den
  if 2 * rest < r.den then below
  else if r.den < 2 * rest then below + 1
  else below + below % 2

/-- The ratio that a dyadic number is. -/
def Dyadic.toRatio (d : Dyadic) : Ratio := Ratio.shift ⟨d.mantissa, 1⟩ d.exponent

/--
The exponent of the last mantissa bit when a positive ratio is written with 53 bits, or with as many
as the smallest exponent leaves. The lengths of numerator and denominator give it up to one.
-/
def lastBit (r : Ratio) : Int :=
  let guess : Int := Int.ofNat r.num.log2 - Int.ofNat r.den.log2 - 53
  let exponent := if (r.shift (-guess)).floor < 2 * binade then guess else guess + 1
  max exponent (-1074)

/--
The code of the magnitude nearest to a ratio, halves to the even code and everything that rounds
above the largest finite magnitude to infinity. A mantissa that rounds up to `2 ^ 53` carries into
the exponent, which is the next code as it should be.
-/
def nearest (r : Ratio) : Nat :=
  if r.num = 0 then 0
  else
    let exponent := lastBit r
    min infinity ((exponent + 1074).toNat * binade + (r.shift (-exponent)).round)

/-- The code of a float's magnitude. -/
def code (x : Float) : Nat := x.toBits.toNat % signBit

/-- Whether the sign bit is set. -/
def isNegative (x : Float) : Bool := decide (signBit ≤ x.toBits.toNat)

/-- The float with a sign and the code of a magnitude. -/
def toFloat (negative : Bool) (code : Nat) : Float :=
  Float.ofBits (UInt64.ofNat (if negative then signBit + code else code))

/-- Whether the float is a number below infinity. -/
def isFinite (x : Float) : Bool := decide (code x < infinity)

/-- Whether the float is no number. -/
def isNaN (x : Float) : Bool := decide (infinity < code x)

/-- The float nearest to an integer. -/
def ofInt (n : Int) : Float := toFloat (decide (n < 0)) (nearest ⟨n.natAbs, 1⟩)

/--
The remainder of truncated division, exact and with the sign of the dividend. Both magnitudes are
whole multiples of the smaller of their two last bits, so the remainder is one of natural numbers.
There is none for an infinite dividend or a zero divisor, and an infinite divisor leaves the
dividend as it is.
-/
def remainder (x y : Float) : Float :=
  if isNaN x || isNaN y || code x = infinity || code y = 0 then toFloat false quietNaN
  else if code y = infinity then x
  else
    let a := dyadic (code x)
    let b := dyadic (code y)
    let unit := min a.exponent b.exponent
    let wholeA := a.mantissa * Nat.pow 2 (a.exponent - unit).toNat
    let wholeB := b.mantissa * Nat.pow 2 (b.exponent - unit).toNat
    toFloat (isNegative x) (nearest (Dyadic.toRatio ⟨wholeA % wholeB, unit⟩))

end RuleTree.Binary64
