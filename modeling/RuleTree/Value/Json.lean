import RuleTree.Json.Basic
import RuleTree.Value.Basic

/-!
# Values as plain JSON

A value is shown as the JSON that looks like it: dates become texts and references become objects
with the fields `model` and `id`. Reading goes the other way for everything that has a form of its
own, so that a date comes back as a text.
-/

namespace RuleTree.Value

mutual

/-- A value as plain JSON. -/
def toJson : Value → Json
  | null => .null
  | bool b => .bool b
  | int n => .int n.toInt
  | float x => Json.ofFloat x
  | str s => .str s
  | date d => .str d.text
  | reference r => Json.object [("model", .str r.model), ("id", .int r.id.toInt)]
  | list items => .arr (toJsonItems items)

/-- Values as plain JSON, one by one. -/
def toJsonItems : List Value → List Json
  | [] => []
  | item :: rest => toJson item :: toJsonItems rest

end

mutual

/--
The value that plain JSON stands for. An integer beyond 64 bits is read as a float, and of the
objects only references are values.
-/
def ofJson? : Json → Option Value
  | .null => some null
  | .bool b => some (bool b)
  | .int n =>
    match Word.ofInt? n with
    | some w => some (int w)
    | none => some (float (Binary64.ofInt n))
  | .float x => some (float x)
  | .str s => some (str s)
  | .arr items => (ofJsonItems? items).map list
  | .obj fields => do
    let model ← (← Entries.get? "model" fields).asStr?
    let id ← (← Entries.get? "id" fields).asInt64?
    some (reference ⟨model, id⟩)

/-- The values that items stand for, if each stands for one. -/
def ofJsonItems? : List Json → Option (List Value)
  | [] => some []
  | item :: rest => do
    let value ← ofJson? item
    let values ← ofJsonItems? rest
    some (value :: values)

end

end RuleTree.Value
