import RuleTree.Function.Library
import RuleTree.Number.Word
import RuleTree.Text.Case

/-!
# The built-in functions

Functions on numbers and texts that every context has unless it is given another library. Rounding
leaves integers as they are, and the lesser and the greater of two numbers are found by comparing
them as floats.
-/

namespace RuleTree.Builtin

/-- What functions say about an argument of the wrong type. -/
def expected (what : String) (value : Value) : String :=
  "expected a " ++ what ++ ", got " ++ value.typeName

/-- What functions say about an argument that is not there. -/
def missing (index : Nat) : String := "missing argument " ++ countText index

/-- The argument at an index, which has to be a number; with the number as a float. -/
def number (args : List Value) (index : Nat) : Except String (Value × Float) :=
  match args[index]? with
  | some value =>
    match value.number? with
    | some x => .ok (value, x)
    | none => .error (expected "number" value)
  | none => .error (missing index)

/-- The argument at an index, which has to be a text. -/
def text (args : List Value) (index : Nat) : Except String String :=
  match args[index]? with
  | some (.str s) => .ok s
  | some value => .error (expected "string" value)
  | none => .error (missing index)

/-- The distance from zero. -/
def abs (args : List Value) : Except String Value := do
  match ← number args 0 with
  | (.int n, _) =>
    match Word.ofInt? n.toInt.natAbs with
    | some w => .ok (.int w)
    | none => .error "integer overflow"
  | (_, x) => .ok (.float x.abs)

/-- Rounds floats and leaves integers as they are. -/
def rounding (round : Float → Float) (args : List Value) : Except String Value := do
  match ← number args 0 with
  | (.float x, _) => .ok (.float (round x))
  | (value, _) => .ok value

/-- The first of two numbers if it stands in a relation to the second, and else the second. -/
def choose (first : Float → Float → Bool) (args : List Value) : Except String Value := do
  let (a, x) ← number args 0
  let (b, y) ← number args 1
  .ok (if first x y then a else b)

/-- The lesser of two numbers. -/
def min : List Value → Except String Value := choose fun x y => decide (x ≤ y)

/-- The greater of two numbers. -/
def max : List Value → Except String Value := choose fun x y => decide (y ≤ x)

/-- How many items a list or how many characters a text has. -/
def len (args : List Value) : Except String Value := do
  match args with
  | .list items :: _ => .ok (.int (Int64.ofNat items.length))
  | _ => .ok (.int (Int64.ofNat (← text args 0).length))

/-- A text in upper case. -/
def upper (args : List Value) : Except String Value := do
  .ok (.str (Text.upper (← text args 0)))

/-- A text in lower case. -/
def lower (args : List Value) : Except String Value := do
  .ok (.str (Text.lower (← text args 0)))

/-- The functions with their titles and parameters. -/
def functions : List FunctionDefinition :=
  [.named "abs" ["x"] (.pure abs),
    .named "floor" ["x"] (.pure (rounding Float.floor)),
    .named "ceil" ["x"] (.pure (rounding Float.ceil)),
    .named "round" ["x"] (.pure (rounding Float.round)),
    .named "min" ["a", "b"] (.pure min),
    .named "max" ["a", "b"] (.pure max),
    .named "len" ["s"] (.pure len),
    .named "upper" ["s"] (.pure upper),
    .named "lower" ["s"] (.pure lower)]

/-- The library of the built-in functions. -/
def library : Library := Library.ofFunctions functions

end RuleTree.Builtin
