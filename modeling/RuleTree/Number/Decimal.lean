import RuleTree.Number.Binary64
import RuleTree.Number.Digits

/-!
# Decimals and binary64

A `Decimal` is read to the nearest binary64 magnitude (`Decimal.code`). In the other direction
`shortest` gives, for a finite code, the decimal with the fewest digits that is read back to that
code, and of those the nearest; a `Tie` decides between two that are equally near. Each candidate is
accepted only after it has been read back; should none with up to seventeen digits do, all digits of
the value are given.
-/

namespace RuleTree

/-- The number `coefficient · 10 ^ exponent`. -/
structure Decimal where
  coefficient : Nat
  exponent : Int
deriving Repr, DecidableEq

namespace Decimal

/-- The ratio that a decimal is. -/
def toRatio (d : Decimal) : Binary64.Ratio := Binary64.Ratio.shiftTen ⟨d.coefficient, 1⟩ d.exponent

/-- How many digits the coefficient has; zero has one. -/
def length (d : Decimal) : Nat := (Digits.writeNat d.coefficient).length

/--
The code of the nearest binary64 magnitude. Decimals from `10 ^ 310` on are above every finite
magnitude and those below `10 ^ (-330)` are nearest to zero, so their powers of ten are never
computed.
-/
def code (d : Decimal) : Nat :=
  if d.coefficient = 0 then 0
  else
    let order := d.exponent + d.length
    if 310 < order then Binary64.infinity
    else if order < -330 then 0
    else Binary64.nearest d.toRatio

/-- The exponent `e` with `10 ^ e ≤ r < 10 ^ (e + 1)`, for ratios from `10 ^ (-350)` on. -/
def order (r : Binary64.Ratio) : Int :=
  Int.ofNat (Digits.writeNat (r.shiftTen 350).floor).length - 351

/-- Which of two decimals is taken that are equally near. -/
inductive Tie where
  /-- The one that is further from zero. -/
  | away
  /-- The one with an even last digit. -/
  | even
deriving DecidableEq

/-- Whether a ratio halfway between a natural number and the next one goes to the next one. -/
def Tie.goesUp (tie : Tie) (below : Nat) : Bool :=
  match tie with
  | .away => true
  | .even => below % 2 == 1

/-- The two neighbours of a ratio among the multiples of `10 ^ exponent`, the nearer one first. -/
def neighbours (tie : Tie) (r : Binary64.Ratio) (exponent : Int) : List Decimal :=
  let scaled := r.shiftTen (-exponent)
  let below : Decimal := ⟨scaled.floor, exponent⟩
  let above : Decimal := ⟨scaled.floor + 1, exponent⟩
  let rest := scaled.num % scaled.den
  if 2 * rest < scaled.den || (2 * rest == scaled.den && !tie.goesUp scaled.floor) then
    [below, above]
  else [above, below]

/-- Every digit of a dyadic number: halving a number moves its decimal point by one and multiplies
by five. -/
def exact (d : Binary64.Dyadic) : Decimal :=
  match d.exponent with
  | .ofNat k => ⟨d.mantissa * Nat.pow 2 k, 0⟩
  | .negSucc k => ⟨d.mantissa * Nat.pow 5 (k + 1), Int.negSucc k⟩

/-- The decimal with the fewest digits that is read back to the code of a finite magnitude. -/
def shortest (tie : Tie) (code : Nat) : Decimal :=
  let value := Binary64.dyadic code
  let ratio := value.toRatio
  let top := order ratio
  let candidates := (List.range 17).flatMap fun (digits : Nat) =>
    neighbours tie ratio (top - digits)
  (candidates.find? fun d => d.code = code).getD (exact value)

end Decimal

end RuleTree
