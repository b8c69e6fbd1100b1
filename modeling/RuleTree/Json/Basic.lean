import RuleTree.Number.Word
import RuleTree.Number.Binary64
import RuleTree.Table

/-!
# JSON values

Integers and floats stay apart, and the fields of an object are entries in increasing order of their
names (`Json.object` sorts them). The readers `asInt64?`, `asFloat?` and so on give the value when
it is of the wanted kind and nothing otherwise.
-/

namespace RuleTree

/-- A JSON value. The fields of an object stand in increasing order of their names. -/
inductive Json where
  | null
  | bool (value : Bool)
  | int (value : Int)
  | float (value : Float)
  | str (value : String)
  | arr (items : List Json)
  | obj (fields : List (String × Json))

/-- The fields of an object. -/
abbrev Fields := List (String × Json)

namespace Json

instance : Inhabited Json := ⟨null⟩

/-- The object with the given fields; of two fields with one name the later one counts. -/
def object (fields : List (String × Json)) : Json :=
  obj (fields.foldl (fun sorted field => Entries.insert field.1 field.2 sorted) [])

/-- The value of a field, if the value is an object that has it. -/
def get? (name : String) : Json → Option Json
  | obj fields => Entries.get? name fields
  | _ => none

theorem get?_collected (name : String) (fields sorted : List (String × Json)) :
    Entries.get? name
        (fields.foldl (fun sorted field => Entries.insert field.1 field.2 sorted) sorted) =
      (Entries.get? name fields.reverse).or (Entries.get? name sorted) := by
  induction fields generalizing sorted with
  | nil => rfl
  | cons field rest ih =>
    rw [List.foldl_cons, ih, List.reverse_cons, Entries.get?_append, Entries.get?_insert,
      Option.or_assoc]
    by_cases here : field.1 = name <;> simp [Entries.get?, here]

/-- Of the fields with one name the last one is found. -/
theorem get?_object (name : String) (fields : List (String × Json)) :
    (object fields).get? name = Entries.get? name fields.reverse := by
  rw [object, get?, get?_collected, Entries.get?_nil, Option.or_none]

/-- A signed 64-bit integer. -/
def asInt64? : Json → Option Int64
  | int n => Word.ofInt? n
  | _ => none

/-- The integer of a signed 64-bit word. -/
def asInt? (json : Json) : Option Int := json.asInt64?.map Int64.toInt

/-- A number as a float; an integer gives the nearest one. -/
def asFloat? : Json → Option Float
  | int n => some (Binary64.ofInt n)
  | float x => some x
  | _ => none

/-- A text. -/
def asStr? : Json → Option String
  | str s => some s
  | _ => none

/-- A truth value. -/
def asBool? : Json → Option Bool
  | bool b => some b
  | _ => none

/-- A float as JSON, which knows finite numbers only. -/
def ofFloat (x : Float) : Json := if Binary64.isFinite x then float x else null

end Json

end RuleTree
