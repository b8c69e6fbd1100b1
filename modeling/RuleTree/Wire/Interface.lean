import RuleTree.Program.Interface
import RuleTree.Wire.Basic

/-!
# The stored format of program interfaces

Interfaces, arguments and fields are objects. What is not known of a field or an argument is left
out.
-/

namespace RuleTree.Wire

instance : Wire FieldType where
  encode type := .str type.tag
  decode? json := (caseName? json).bind FieldType.ofTag?

instance : Wire ArgumentField where
  encode field :=
    Json.object ([("name", .str field.name), ("data_type", encode field.type)]
      ++ fieldOf "content_type" .str field.model ++ fieldOf "verbose_name" .str field.label)
  decode? json := do
    match ← fields? ["name", "data_type", "content_type", "verbose_name"] 2 json with
    | [some name, some type, model, label] =>
      some ⟨← name.asStr?, ← decode? type, ← optional Json.asStr? model,
        ← optional Json.asStr? label⟩
    | _ => none

instance : Wire Argument where
  encode argument :=
    Json.object ([("name", .str argument.name), ("content_type", .str argument.model),
      ("fields", .arr (argument.fields.map encode))]
      ++ fieldOf "verbose_name" .str argument.label)
  decode? json := do
    match ← fields? ["name", "content_type", "verbose_name", "fields"] 2 json with
    | [some name, some model, label, fields] =>
      some ⟨← name.asStr?, ← model.asStr?, ← optional Json.asStr? label,
        ← listOrEmpty decode? fields⟩
    | _ => none

instance : Wire Interface where
  encode interface :=
    Json.object [("code", .str interface.code),
      ("arguments", .arr (interface.arguments.map encode))]
  decode? json := do
    match ← fields? ["code", "arguments"] 1 json with
    | [some code, arguments] => some ⟨← code.asStr?, ← listOrEmpty decode? arguments⟩
    | _ => none

end RuleTree.Wire
