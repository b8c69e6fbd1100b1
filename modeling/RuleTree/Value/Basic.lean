import RuleTree.Date
import RuleTree.Number.FloatText

/-!
# Values

What rules compute with: truth values, 64-bit integers, binary64 floats, texts, dates, references to
entities outside of the rules, and lists, which are what a block of statements gives.
-/

namespace RuleTree

/-- A reference to an entity that lives outside of the rules. -/
structure Reference where
  /-- The type of the entity. -/
  model : String
  id : Int64
deriving DecidableEq

/-- A value at run time. -/
inductive Value where
  | null
  | bool (value : Bool)
  | int (value : Int64)
  | float (value : Float)
  | str (value : String)
  | date (value : Date)
  | reference (value : Reference)
  /-- The results of a block in order. -/
  | list (items : List Value)

namespace Value

instance : Inhabited Value := ⟨null⟩

/-- What the logical operators take for true. -/
def isTruthy : Value → Bool
  | null => false
  | bool b => b
  | int n => n != 0
  | float x => x != 0.0
  | str s => s != ""
  | list items => !items.isEmpty
  | date _ | reference _ => true

/-- The name of the value's type in messages. -/
def typeName : Value → String
  | null => "null"
  | bool _ => "bool"
  | int _ => "int"
  | float _ => "float"
  | str _ => "string"
  | date _ => "date"
  | reference _ => "reference"
  | list _ => "list"

/-- The number that an integer or a float is, as a float. -/
def number? : Value → Option Float
  | int n => some (Binary64.ofInt n.toInt)
  | float x => some x
  | _ => none

mutual

/-- The text of a value in messages. -/
def display : Value → String
  | null => "null"
  | bool b => if b then "true" else "false"
  | int n => String.ofList (Digits.writeInt n.toInt)
  | float x => floatText x
  | str s => s
  | date d => d.text
  | reference r => r.model ++ "#" ++ String.ofList (Digits.writeInt r.id.toInt)
  | list items => "[" ++ displayItems items ++ "]"

/-- Texts with commas between them. -/
def displayItems : List Value → String
  | [] => ""
  | [item] => display item
  | item :: rest => display item ++ ", " ++ displayItems rest

end

mutual

/--
Whether two values are the same kind with the same content. Floats compare as numbers, so that the
two zeros are the same and the value that is no number differs from itself.
-/
def same : Value → Value → Bool
  | null, null => true
  | bool a, bool b => a == b
  | int a, int b => a == b
  | float x, float y => x == y
  | str s, str t => s == t
  | date d, date e => d == e
  | reference r, reference s => r == s
  | list xs, list ys => sameItems xs ys
  | _, _ => false

/-- Whether two lists of values have the same length and the same items. -/
def sameItems : List Value → List Value → Bool
  | [], [] => true
  | x :: xs, y :: ys => same x y && sameItems xs ys
  | _, _ => false

end

end Value

end RuleTree
