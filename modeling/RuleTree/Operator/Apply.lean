import RuleTree.Error
import RuleTree.Number.Word
import RuleTree.Operator.Symbol
import RuleTree.Value.Basic

/-!
# What operators compute

On two integers the arithmetic operators are exact or report an overflow, apart from division, which
always gives a float. An integer beside a float is taken as a float. Comparisons need two values
that can be ordered; equality is defined for all values.
-/

namespace RuleTree

/-- The types of two operands do not suit the operator. -/
def mismatch (op : BinaryOp) (left right : Value) : EvaluationError :=
  .typeMismatch op.symbol (left.typeName ++ " and " ++ right.typeName)

/-- An exact integer result, or the overflow of the operator. -/
def exactOr (symbol : String) (result : Option Int64) : Except EvaluationError Value :=
  match result with
  | some w => .ok (.int w)
  | none => .error (.overflow symbol)

/-- Arithmetic on two integers, or on two numbers as floats. -/
def arithmetic (op : BinaryOp) (onInts : Int → Int → Int) (onFloats : Float → Float → Float)
    (left right : Value) : Except EvaluationError Value :=
  match left, right with
  | .int a, .int b => exactOr op.symbol (Word.ofInt? (onInts a.toInt b.toInt))
  | _, _ =>
    match left.number?, right.number? with
    | some x, some y => .ok (.float (onFloats x y))
    | _, _ => .error (mismatch op left right)

/-- The quotient of two numbers, as a float. -/
def divide (left right : Value) : Except EvaluationError Value :=
  match left.number?, right.number? with
  | some x, some y => if y == 0.0 then .error .divisionByZero else .ok (.float (x / y))
  | _, _ => .error (mismatch .div left right)

/--
The remainder of two integers with the sign of the divisor: the remainder of truncated division,
moved by one divisor where the signs differ. The least integer divided by minus one counts as an
overflow, because its quotient is.
-/
def moduloInts (a b : Int64) : Except EvaluationError Value :=
  if b = 0 then .error .divisionByZero
  else if a.toInt = -0x8000000000000000 ∧ b.toInt = -1 then .error (.overflow BinaryOp.mod.symbol)
  else
    let rest := a.toInt.tmod b.toInt
    if rest ≠ 0 ∧ (decide (rest < 0) ≠ decide (b.toInt < 0)) then
      .ok (.int (Int64.ofInt (rest + b.toInt)))
    else .ok (.int (Int64.ofInt rest))

/-- The remainder of two floats with the sign of the divisor. -/
def moduloFloats (x y : Float) : Except EvaluationError Value :=
  if y == 0.0 then .error .divisionByZero
  else
    let rest := Binary64.remainder x y
    if rest != 0.0 && (decide (rest < 0.0) != decide (y < 0.0)) then .ok (.float (rest + y))
    else .ok (.float rest)

/-- The remainder of two numbers with the sign of the divisor. -/
def modulo (left right : Value) : Except EvaluationError Value :=
  match left, right with
  | .int a, .int b => moduloInts a b
  | _, _ =>
    match left.number?, right.number? with
    | some x, some y => moduloFloats x y
    | _, _ => .error (mismatch .mod left right)

/--
The power of two numbers. An integer to a natural exponent stays an integer; exponents of more than
32 bits count as an overflow whatever the base.
-/
def power (left right : Value) : Except EvaluationError Value :=
  let onFloats : Except EvaluationError Value :=
    match left.number?, right.number? with
    | some x, some y => .ok (.float (Float.pow x y))
    | _, _ => .error (mismatch .pow left right)
  match left, right with
  | .int a, .int b =>
    if 0 ≤ b.toInt then
      exactOr BinaryOp.pow.symbol
        (if b.toInt < 0x100000000 then Word.pow? a b.toInt.toNat else none)
    else onFloats
  | _, _ => onFloats

/-- Whether two values are equal: numbers as numbers, everything else by kind and content. -/
def equal (left right : Value) : Bool :=
  match left, right with
  | .int a, .int b => a == b
  | _, _ =>
    match left.number?, right.number? with
    | some x, some y => x == y
    | _, _ => left.same right

/-- The order of two floats, unless one of them is no number. -/
def floatOrder (x y : Float) : Option Ordering :=
  if x < y then some .lt else if x == y then some .eq else if y < x then some .gt else none

/-- The order of two values, if they have one. -/
def order? (left right : Value) : Option Ordering :=
  match left, right with
  | .int a, .int b => some (compare a.toInt b.toInt)
  | .str s, .str t => some (compare s t)
  | .date d, .date e => some (d.order e)
  | .bool a, .bool b => some (compare a b)
  | _, _ =>
    match left.number?, right.number? with
    | some x, some y => floatOrder x y
    | _, _ => none

/-- A comparison that holds for some orders of its operands. -/
def comparison (op : BinaryOp) (holds : Ordering → Bool) (left right : Value) :
    Except EvaluationError Value :=
  match order? left right with
  | some order => .ok (.bool (holds order))
  | none => .error (mismatch op left right)

/-- The result of an operator on two values. -/
def BinaryOp.apply (op : BinaryOp) (left right : Value) : Except EvaluationError Value :=
  match op with
  | .add =>
    match left, right with
    | .str s, .str t => .ok (.str (s ++ t))
    | _, _ => arithmetic .add (· + ·) (· + ·) left right
  | .sub => arithmetic .sub (· - ·) (· - ·) left right
  | .mul => arithmetic .mul (· * ·) (· * ·) left right
  | .div => divide left right
  | .mod => modulo left right
  | .pow => power left right
  | .eq => .ok (.bool (equal left right))
  | .ne => .ok (.bool (!equal left right))
  | .lt => comparison .lt Ordering.isLT left right
  | .le => comparison .le Ordering.isLE left right
  | .gt => comparison .gt Ordering.isGT left right
  | .ge => comparison .ge Ordering.isGE left right
  | .and => .ok (.bool (left.isTruthy && right.isTruthy))
  | .or => .ok (.bool (left.isTruthy || right.isTruthy))

/-- The result of an operator on one value. -/
def UnaryOp.apply (op : UnaryOp) (operand : Value) : Except EvaluationError Value :=
  match op, operand with
  | .neg, .int n => exactOr UnaryOp.neg.symbol (Word.ofInt? (-n.toInt))
  | .neg, .float x => .ok (.float (-x))
  | .abs, .int n => exactOr UnaryOp.abs.symbol (Word.ofInt? n.toInt.natAbs)
  | .abs, .float x => .ok (.float x.abs)
  | .not, operand => .ok (.bool (!operand.isTruthy))
  | op, operand => .error (.typeMismatch op.symbol operand.typeName)

/-- The result of the binary operator with a symbol. -/
def applyBinary (symbol : String) (left right : Value) : Except EvaluationError Value :=
  match BinaryOp.ofSymbol? symbol with
  | some op => op.apply left right
  | none => .error (.unknownOperator symbol)

/-- The result of the unary operator with a symbol. -/
def applyUnary (symbol : String) (operand : Value) : Except EvaluationError Value :=
  match UnaryOp.ofSymbol? symbol with
  | some op => op.apply operand
  | none => .error (.unknownOperator symbol)

end RuleTree
