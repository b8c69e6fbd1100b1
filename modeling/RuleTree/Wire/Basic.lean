import RuleTree.Json.Basic

/-!
# Stored formats

What is stored outside of a program's memory is stored as JSON. A type with a stored format has an
instance of `Wire`: each value is written in one way, and reading is more generous. A record may be
an object, where fields that are not known count for nothing, or an array of its fields in order.
-/

namespace RuleTree

/-- A type whose values have a stored format. -/
class Wire (α : Type) where
  encode : α → Json
  decode? : Json → Option α

namespace Wire

/-- What an object or an array holds for the fields of a record. An array has at least the first
`required` fields and no more than there are. -/
def fields? (names : List String) (required : Nat) : Json → Option (List (Option Json))
  | .obj fields => some (names.map fun name => Entries.get? name fields)
  | .arr items =>
    if required ≤ items.length ∧ items.length ≤ names.length then
      some ((List.range names.length).map fun index => items[index]?)
    else none
  | _ => none

/-- A field that may be left out or null. -/
def optional {α : Type} (read : Json → Option α) : Option Json → Option (Option α)
  | none => some none
  | some .null => some none
  | some json => (read json).map some

/-- A list that may be left out. -/
def listOrEmpty {α : Type} (read : Json → Option α) : Option Json → Option (List α)
  | none => some []
  | some (.arr items) => items.mapM read
  | some _ => none

/-- The name of a case without contents: a text, or an object with the name as its only field. -/
def caseName? : Json → Option String
  | .str name => some name
  | .obj [(name, .null)] => some name
  | _ => none

/-- A field that is written only if there is something in it. -/
def fieldOf {α : Type} (name : String) (write : α → Json) : Option α → List (String × Json)
  | none => []
  | some value => [(name, write value)]

/-- A value or null. -/
def orNull {α : Type} (write : α → Json) : Option α → Json
  | none => .null
  | some value => write value

end Wire

end RuleTree
