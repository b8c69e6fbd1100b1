import RuleTree.Value.Basic
import RuleTree.Wire.Basic

/-!
# The stored format of values

A value is an object with its type under `t` and its content under `v`; null has no content.
-/

namespace RuleTree.Wire

/-- A date is stored as its text. -/
def readDate? (json : Json) : Option Date :=
  json.asStr?.bind fun text => Date.readStored? text.toList

/-- Reads a reference from an object or from an array of model and number. -/
def readReference? (json : Json) : Option Reference := do
  match ← fields? ["model", "id"] 2 json with
  | [some model, some id] => some ⟨← model.asStr?, ← id.asInt64?⟩
  | _ => none

instance : Wire Reference where
  encode reference :=
    Json.object [("model", .str reference.model), ("id", .int reference.id.toInt)]
  decode? := readReference?

/-- An object with a type and a content. -/
def tagged (tag : String) (content : Json) : Json := Json.object [("t", .str tag), ("v", content)]

mutual

/-- Writes a value. -/
def writeValue : Value → Json
  | .null => Json.object [("t", .str "Null")]
  | .bool b => tagged "Bool" (.bool b)
  | .int n => tagged "Int" (.int n.toInt)
  | .float x => tagged "Float" (Json.ofFloat x)
  | .str s => tagged "Str" (.str s)
  | .date d => tagged "Date" (.str d.text)
  | .reference r => tagged "Reference" (encode r)
  | .list items => tagged "List" (.arr (writeValues items))

/-- Writes values one by one. -/
def writeValues : List Value → List Json
  | [] => []
  | value :: rest => writeValue value :: writeValues rest

end

/-- Reads the content of a value that is no list. -/
def readSimple? (tag : String) (content : Json) : Option Value :=
  match tag with
  | "Null" =>
    match content with
    | .null => some .null
    | _ => none
  | "Bool" => content.asBool?.map .bool
  | "Int" => content.asInt64?.map .int
  | "Float" => content.asFloat?.map .float
  | "Str" => content.asStr?.map .str
  | "Date" => (readDate? content).map .date
  | "Reference" => (readReference? content).map .reference
  | _ => none

mutual

/-- Reads a value from an object or from an array of type and content. -/
def readValue? : Json → Option Value
  | .obj fields => do
    let tag ← caseName? (← Entries.get? "t" fields)
    readContentIn? tag fields
  | .arr [.str tag, content] => readContent? tag content
  | _ => none

/-- Reads the content of a value with a type from the fields of an object. -/
def readContentIn? (tag : String) : List (String × Json) → Option Value
  | [] => if tag = "Null" then some .null else none
  | (name, content) :: rest =>
    if name = "v" then readContent? tag content else readContentIn? tag rest

/-- Reads the content of a value with a type. -/
def readContent? (tag : String) : Json → Option Value
  | .arr items =>
    if tag = "List" then (readValues? items).map .list else readSimple? tag (.arr items)
  | content => readSimple? tag content

/-- Reads values one by one. -/
def readValues? : List Json → Option (List Value)
  | [] => some []
  | json :: rest => do
    let value ← readValue? json
    let values ← readValues? rest
    some (value :: values)

end

instance : Wire Value where
  encode := writeValue
  decode? := readValue?

end RuleTree.Wire
