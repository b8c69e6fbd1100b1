import RuleTree.Content.Basic
import RuleTree.Wire.Value

/-!
# The stored format of content objects

A content object is an object with its kind under `t` and its parts beside it; a source has its kind
under `kind`. An array gives the kind first and then the parts in order.
-/

namespace RuleTree.Wire

instance : Wire Kind where
  encode kind := .str kind.tag
  decode? json := (caseName? json).bind Kind.ofTag?

/-- What an object or an array holds: the case under a key or in front, and the parts as an object
or an array of their own. -/
def case? (key : String) : Json → Option (Json × Json)
  | .obj fields => (Entries.get? key fields).map fun tag => (tag, .obj fields)
  | .arr (tag :: items) => some (tag, .arr items)
  | _ => none

/-- A part that has to be there. -/
def part? {α : Type} (name : String) (read : Json → Option α) (parts : Json) : Option α := do
  match ← fields? [name] 1 parts with
  | [some json] => read json
  | _ => none

/-- Two parts that have to be there. -/
def parts? {α β : Type} (first second : String) (readFirst : Json → Option α)
    (readSecond : Json → Option β) (parts : Json) : Option (α × β) := do
  match ← fields? [first, second] 2 parts with
  | [some left, some right] => some (← readFirst left, ← readSecond right)
  | _ => none

/-- A case that has no parts: any object will do, but no array with items. -/
def noParts? : Json → Option Unit
  | .obj _ | .arr [] => some ()
  | _ => none

/-- Writes a source. -/
def writeSource : Source → Json
  | .argument argument => Json.object [("kind", .str "argument"), ("argument", .str argument)]
  | .field argument field =>
    Json.object [("kind", .str "argument_field"), ("argument", .str argument),
      ("field", .str field)]

/-- Reads the parts of a source of a kind. -/
def readSourceParts? (tag : String) (parts : Json) : Option Source :=
  match tag with
  | "argument" => (part? "argument" Json.asStr? parts).map .argument
  | "argument_field" =>
    (parts? "argument" "field" Json.asStr? Json.asStr? parts).map fun (argument, field) =>
      .field argument field
  | _ => none

/-- Reads a source. -/
def readSource? (json : Json) : Option Source := do
  let (tag, parts) ← case? "kind" json
  readSourceParts? (← tag.asStr?) parts

/-- Reads a source inside of a definition, where its kind may be given by its number as well. -/
def readInnerSource? (json : Json) : Option Source := do
  let (tag, parts) ← case? "kind" json
  match tag with
  | .int 0 => readSourceParts? "argument" parts
  | .int 1 => readSourceParts? "argument_field" parts
  | tag => readSourceParts? (← tag.asStr?) parts

instance : Wire Source where
  encode := writeSource
  decode? := readSource?

/-- An object with the kind of a content object and its parts. -/
def contentObject (tag : String) (parts : List (String × Json)) : Json :=
  Json.object (("t", .str tag) :: parts)

/-- Writes a content object. -/
def writeContent : Content → Json
  | .integer n => contentObject "IntegerConstant" [("value", .int n.toInt)]
  | .float x => contentObject "FloatConstant" [("value", Json.ofFloat x)]
  | .text s => contentObject "StringConstant" [("value", .str s)]
  | .boolean b => contentObject "BooleanConstant" [("value", .bool b)]
  | .date d => contentObject "DateConstant" [("value", .str d.text)]
  | .reference r =>
    contentObject "ReferenceConstant" [("model", .str r.model), ("id", .int r.id.toInt)]
  | .use definition => contentObject "Variable" [("definition", .int definition.val)]
  | .definition name source =>
    contentObject "VariableDefinition" (("name", .str name) :: fieldOf "source" writeSource source)
  | .assignment => contentObject "Assignment" []
  | .binary symbol => contentObject "BinaryOperator" [("operator", .str symbol)]
  | .unary symbol => contentObject "UnaryOperator" [("operator", .str symbol)]
  | .call title => contentObject "Function" [("definition", .str title)]

/-- Reads the parts of a content object of a kind. -/
def readContentParts? (tag : String) (parts : Json) : Option Content :=
  match tag with
  | "IntegerConstant" => (part? "value" Json.asInt64? parts).map .integer
  | "FloatConstant" => (part? "value" Json.asFloat? parts).map .float
  | "StringConstant" => (part? "value" Json.asStr? parts).map .text
  | "BooleanConstant" => (part? "value" Json.asBool? parts).map .boolean
  | "DateConstant" => (part? "value" readDate? parts).map .date
  | "ReferenceConstant" =>
    (parts? "model" "id" Json.asStr? Json.asInt64? parts).map fun (model, id) =>
      .reference ⟨model, id⟩
  | "Variable" => (part? "definition" Json.asInt? parts).map fun id => .use ⟨id⟩
  | "VariableDefinition" => do
    match ← fields? ["name", "source"] 1 parts with
    | [some name, source] =>
      some (.definition (← name.asStr?) (← optional readInnerSource? source))
    | _ => none
  | "Assignment" => (noParts? parts).map fun _ => .assignment
  | "BinaryOperator" => (part? "operator" Json.asStr? parts).map .binary
  | "UnaryOperator" => (part? "operator" Json.asStr? parts).map .unary
  | "Function" => (part? "definition" Json.asStr? parts).map .call
  | _ => none

/-- Reads a content object. -/
def readContentObject? (json : Json) : Option Content := do
  let (tag, parts) ← case? "t" json
  readContentParts? (← tag.asStr?) parts

instance : Wire Content where
  encode := writeContent
  decode? := readContentObject?

end RuleTree.Wire
