import RuleTree.Proofs.Number.Literals
import RuleTree.Wire.Interface
import RuleTree.Wire.Tree

/-!
# Stored formats read back

What was stored is read back as it was. JSON has no place for floats that are not finite, and the
stored formats have none for numbers of nodes and objects beyond 64 bits and for positions beyond 32
bits. `formats_read_back` says of each stored type exactly which of its values are read back: all
that keep to these bounds. What is absent is left out, and what was left out is read as absent.
-/

namespace RuleTree

open Wire

/-! ## What can be stored -/

namespace Value

mutual

/-- Every float in the value is finite. -/
def Finite : Value → Prop
  | float x => Binary64.isFinite x = true
  | list items => AllFinite items
  | _ => True

/-- Every float in the values is finite. -/
def AllFinite : List Value → Prop
  | [] => True
  | item :: rest => Finite item ∧ AllFinite rest

end

end Value

/-- The object holds a finite float, if it holds one, and names a definition by a 64-bit number, if
it names one. -/
def Content.Storable : Content → Prop
  | .float x => Binary64.isFinite x = true
  | .use id => Word.InRange id.val
  | _ => True

/-- The numbers in a node have 64 bits and its position has 32. -/
structure Node.Storable (node : Node) : Prop where
  id : Word.InRange node.id.val
  parent : ∀ parent ∈ node.parent, Word.InRange parent.val
  position : node.position < 0x100000000
  content : ∀ ref ∈ node.content, Word.InRange ref.id.val

namespace Wire

/-! ## Fields of objects -/

section Fields

variable {α β : Type} {read : Json → Option α} {write : α → Json} {fields : List (String × Json)}

@[simp]
theorem fields?_object (names : List String) (required : Nat) (fields : List (String × Json)) :
    fields? names required (Json.object fields) =
      some (names.map fun name => (Json.object fields).get? name) :=
  rfl

theorem part?_object (name : String) (read : Json → Option α) (fields : List (String × Json)) :
    part? name read (Json.object fields) = ((Json.object fields).get? name).bind read := by
  rw [part?, fields?_object, List.map_cons, List.map_nil]
  cases (Json.object fields).get? name <;> simp

theorem parts?_object {first second : String} {left right : Json}
    (readFirst : Json → Option α) (readSecond : Json → Option β)
    (there : (Json.object fields).get? first = some left)
    (there' : (Json.object fields).get? second = some right) :
    parts? first second readFirst readSecond (Json.object fields) =
      (readFirst left).bind fun a => (readSecond right).bind fun b => some (a, b) := by
  rw [parts?, fields?_object, List.map_cons, List.map_cons, List.map_nil, there, there']
  rfl

theorem case?_object (key : String) (fields : List (String × Json)) :
    case? key (Json.object fields) =
      ((Json.object fields).get? key).map fun tag => (tag, Json.object fields) :=
  rfl

@[simp]
theorem get?_fieldOf (name : String) (write : α → Json) (field : Option α) :
    Entries.get? name (fieldOf name write field) = field.map write := by
  cases field <;> simp [fieldOf, Entries.get?]

@[simp]
theorem get?_fieldOf_of_ne {name other : String} (differ : other ≠ name) (write : α → Json)
    (field : Option α) : Entries.get? name (fieldOf other write field) = none := by
  cases field <;> simp [fieldOf, Entries.get?, differ]

@[simp]
theorem reverse_fieldOf (name : String) (write : α → Json) (field : Option α) :
    (fieldOf name write field).reverse = fieldOf name write field := by
  cases field <;> rfl

theorem optional_some {json : Json} (solid : json ≠ .null) :
    optional read (some json) = (read json).map some := by
  cases json with
  | null => exact absurd rfl solid
  | _ => rfl

/-- A field that is left out where there is nothing in it. -/
theorem optional_map (solid : ∀ value, write value ≠ .null) (field : Option α) :
    optional read (field.map write) = some field ↔
      ∀ value ∈ field, read (write value) = some value := by
  cases field with
  | none => simp [optional]
  | some value => simp [optional_some (solid value)]

/-- A field that is null where there is nothing in it. -/
theorem optional_orNull (solid : ∀ value, write value ≠ .null) (field : Option α) :
    optional read (some (orNull write field)) = some field ↔
      ∀ value ∈ field, read (write value) = some value := by
  cases field with
  | none => simp [orNull, optional]
  | some value => simp [orNull, optional_some (solid value)]

theorem mapM_map (inverse : ∀ value, read (write value) = some value) (values : List α) :
    (values.map write).mapM read = some values := by
  induction values with
  | nil => rfl
  | cons value rest ih =>
      rw [List.map_cons, List.mapM_cons, inverse, ih]
      rfl

end Fields

/-! ## Single values -/

theorem asInt64?_toInt (n : Int64) : (Json.int n.toInt).asInt64? = some n := Word.ofInt?_toInt n

theorem asInt?_eq_some_iff {n : Int} : (Json.int n).asInt? = some n ↔ Word.InRange n := by
  rw [Json.asInt?, Json.asInt64?, Word.ofInt?]
  by_cases range : Word.InRange n
  · simp [range, Int64.toInt_ofInt_of_le range.1 range.2]
  · simp [range]

theorem asFloat?_ofFloat {x : Float} :
    (Json.ofFloat x).asFloat? = some x ↔ Binary64.isFinite x = true := by
  unfold Json.ofFloat
  split <;> simp_all [Json.asFloat?]

theorem readDate?_text (date : Date) : readDate? (.str date.text) = some date := by
  have chars : date.text.toList = date.write := String.toList_ofList
  exact (congrArg Date.readStored? chars).trans date.readStored?_write

theorem decode?_reference (reference : Reference) :
    decode? (encode reference) = some reference := by
  simp [decode?, encode, readReference?, Json.get?_object, Entries.get?,
    Json.asStr?, asInt64?_toInt]

theorem decode?_kind (kind : Kind) : decode? (encode kind) = some kind := Kind.ofTag?_tag kind

theorem decode?_type (type : FieldType) : decode? (encode type) = some type :=
  FieldType.ofTag?_tag type

theorem decode?_nodeId {id : NodeId} : decode? (encode id) = some id ↔ Word.InRange id.val := by
  rw [← asInt?_eq_some_iff]
  show (Json.int id.val).asInt?.map NodeId.mk = some id ↔ _
  cases id
  simp

theorem decode?_objectId {id : ObjectId} : decode? (encode id) = some id ↔ Word.InRange id.val := by
  rw [← asInt?_eq_some_iff]
  show (Json.int id.val).asInt?.map ObjectId.mk = some id ↔ _
  cases id
  simp

/-! ## Values -/

/-- The content of a value is what stands under `v`. -/
theorem readContentIn?_eq (tag : String) (fields : List (String × Json)) :
    readContentIn? tag fields =
      match Entries.get? "v" fields with
      | some content => readContent? tag content
      | none => if tag = "Null" then some .null else none := by
  induction fields with
  | nil => rw [readContentIn?, Entries.get?_nil]
  | cons field rest ih =>
      rcases field with ⟨name, content⟩
      rw [readContentIn?, Entries.get?]
      split
      · rfl
      · exact ih

theorem readValue?_tagged (tag : String) (content : Json) :
    readValue? (tagged tag content) = readContent? tag content := by
  unfold tagged Json.object
  rw [readValue?]
  simp [Entries.get?_insert, caseName?, readContentIn?_eq]

theorem readValue?_null : readValue? (writeValue .null) = some .null := by
  rw [writeValue, Json.object, readValue?]
  simp [Entries.get?_insert, caseName?, readContentIn?_eq]

/-- Only a list is looked into for values. -/
theorem readContent?_simple {content : Json} (simple : ∀ items, content ≠ .arr items)
    (tag : String) : readContent? tag content = readSimple? tag content := by
  cases content with
  | arr items => exact absurd rfl (simple items)
  | _ => rw [readContent?]; simp

mutual

theorem readValue?_writeValue : ∀ value, readValue? (writeValue value) = some value ↔ value.Finite
  | .null => by simp [readValue?_null, Value.Finite]
  | .bool b => by
      rw [writeValue, readValue?_tagged, readContent?_simple (by simp)]
      simp [readSimple?, Json.asBool?, Value.Finite]
  | .int n => by
      rw [writeValue, readValue?_tagged, readContent?_simple (by simp)]
      simp [readSimple?, asInt64?_toInt, Value.Finite]
  | .float x => by
      have simple : ∀ items, Json.ofFloat x ≠ .arr items := by
        unfold Json.ofFloat
        split <;> simp
      rw [writeValue, readValue?_tagged, readContent?_simple simple]
      simp [readSimple?, asFloat?_ofFloat, Value.Finite]
  | .str s => by
      rw [writeValue, readValue?_tagged, readContent?_simple (by simp)]
      simp [readSimple?, Json.asStr?, Value.Finite]
  | .date d => by
      rw [writeValue, readValue?_tagged, readContent?_simple (by simp)]
      simp [readSimple?, readDate?_text, Value.Finite]
  | .reference r => by
      rw [writeValue, readValue?_tagged, readContent?_simple (by simp [encode, Json.object])]
      have read : readReference? (encode r) = some r := decode?_reference r
      simp [readSimple?, read, Value.Finite]
  | .list items => by
      rw [writeValue, readValue?_tagged, readContent?, if_pos rfl, Value.Finite,
        ← readValues?_writeValues items]
      simp

theorem readValues?_writeValues : ∀ values,
    readValues? (writeValues values) = some values ↔ Value.AllFinite values
  | [] => by simp [writeValues, readValues?, Value.AllFinite]
  | value :: rest => by
      rw [writeValues, readValues?, Value.AllFinite, ← readValue?_writeValue value,
        ← readValues?_writeValues rest]
      cases readValue? (writeValue value) <;> cases readValues? (writeValues rest) <;> simp

end

/-! ## Content objects -/

theorem decode?_source (source : Source) : decode? (encode source) = some source := by
  cases source <;>
    simp [decode?, encode, readSource?, writeSource, case?_object, Json.get?_object, Entries.get?,
      Json.asStr?, readSourceParts?, part?_object, parts?_object]

theorem readInnerSource?_writeSource (source : Source) :
    readInnerSource? (writeSource source) = some source := by
  cases source <;>
    simp [readInnerSource?, writeSource, case?_object, Json.get?_object, Entries.get?,
      Json.asStr?, readSourceParts?, part?_object, parts?_object]

theorem writeSource_ne_null (source : Source) : writeSource source ≠ .null := by
  cases source <;> simp [writeSource, Json.object]

theorem readContentObject?_contentObject {tag : String} {parts : List (String × Json)}
    (untagged : Entries.get? "t" parts.reverse = none) :
    readContentObject? (contentObject tag parts) =
      readContentParts? tag (contentObject tag parts) := by
  have found : (contentObject tag parts).get? "t" = some (.str tag) := by
    simp [contentObject, Json.get?_object, Entries.get?_append, untagged, Entries.get?]
  unfold contentObject at found ⊢
  rw [readContentObject?, case?_object, found]
  rfl

/-- The only part of an object is read by itself. -/
theorem part?_contentObject {α : Type} (tag name : String) (read : Json → Option α) (value : Json) :
    part? name read (contentObject tag [(name, value)]) = read value := by
  simp [contentObject, part?_object, Json.get?_object, Entries.get?]

theorem get?_source (name : String) (source : Option Source) :
    (writeContent (.definition name source)).get? "source" = source.map writeSource := by
  simp [writeContent, contentObject, Json.get?_object, Entries.get?_append, Entries.get?]

theorem get?_definedName (name : String) (source : Option Source) :
    (writeContent (.definition name source)).get? "name" = some (.str name) := by
  simp [writeContent, contentObject, Json.get?_object, Entries.get?_append, Entries.get?]

theorem decode?_content (content : Content) :
    decode? (encode content) = some content ↔ content.Storable := by
  show readContentObject? (writeContent content) = _ ↔ _
  cases content with
  | definition name source =>
      have name_found := get?_definedName name source
      have source_found := get?_source name source
      have read_source : optional readInnerSource? (source.map writeSource) = some source :=
        (optional_map writeSource_ne_null source).mpr fun source _ =>
          readInnerSource?_writeSource source
      have untagged : Entries.get? "t"
          (("name", Json.str name) :: fieldOf "source" writeSource source).reverse = none := by
        simp [Entries.get?_append, Entries.get?]
      simp only [writeContent, contentObject] at name_found source_found
      rw [writeContent, readContentObject?_contentObject untagged, contentObject]
      simp [readContentParts?, name_found, source_found, Json.asStr?, read_source,
        Content.Storable]
  | reference r =>
      have parts : parts? "model" "id" Json.asStr? Json.asInt64? (writeContent (.reference r)) =
          some (r.model, r.id) := by
        simp [writeContent, contentObject, parts?_object, Json.get?_object, Entries.get?,
          Json.asStr?, asInt64?_toInt]
      rw [writeContent] at parts ⊢
      rw [readContentObject?_contentObject (by simp [Entries.get?])]
      simp [readContentParts?, parts, Content.Storable]
  | assignment =>
      rw [writeContent, readContentObject?_contentObject (by simp)]
      simp [readContentParts?, contentObject, Json.object, noParts?, Content.Storable]
  | use id =>
      rw [writeContent, readContentObject?_contentObject (by simp [Entries.get?]),
        Content.Storable, ← decode?_objectId]
      simp [readContentParts?, part?_contentObject, decode?, encode]
  | _ =>
      rw [writeContent, readContentObject?_contentObject (by simp [Entries.get?])]
      simp [readContentParts?, part?_contentObject, asInt64?_toInt, asFloat?_ofFloat, Json.asStr?,
        Json.asBool?, readDate?_text, Content.Storable]

/-! ## Nodes -/

theorem decode?_ref {ref : ContentRef} :
    decode? (encode ref) = some ref ↔ Word.InRange ref.id.val := by
  have read : decode? (encode ref) =
      (decode? (encode ref.id)).map fun id : ObjectId => ContentRef.mk ref.kind id := by
    have kind_found : (encode ref).get? "content_type" = some (encode ref.kind) := by
      simp [encode, Json.get?_object, Entries.get?]
    have id_found : (encode ref).get? "object_id" = some (encode ref.id) := by
      simp [encode, Json.get?_object, Entries.get?]
    have parts : parts? "content_type" "object_id" decode? decode? (encode ref) =
        (decode? (encode ref.kind)).bind fun kind : Kind =>
          (decode? (encode ref.id)).bind fun id : ObjectId => some (kind, id) :=
      parts?_object decode? decode? kind_found id_found
    show (parts? "content_type" "object_id" decode? decode? (encode ref)).bind _ = _
    rw [parts, decode?_kind]
    cases (decode? (encode ref.id) : Option ObjectId) <;> rfl
  rw [read, ← decode?_objectId, Option.map_eq_some_iff]
  constructor
  · rintro ⟨id, found, same⟩
    rw [found, ← congrArg ContentRef.id same]
  · exact fun found => ⟨ref.id, found, rfl⟩

theorem readPosition?_eq_some_iff {position : Nat} :
    readPosition? (.int position) = some position ↔ position < 0x100000000 := by
  rw [readPosition?]
  split
  · simp
    omega
  · simp
    omega

theorem fields?_node (node : Node) :
    fields? ["id", "parent", "position", "content"] 4 (encode node) =
      some [some (encode node.id), some (orNull encode node.parent), some (.int node.position),
        some (orNull encode node.content)] := by
  simp [encode, Json.get?_object, Entries.get?]

theorem decode?_node (node : Node) : decode? (encode node) = some node ↔ node.Storable := by
  have parent : optional decode? (some (orNull encode node.parent)) = some node.parent ↔
      ∀ parent ∈ node.parent, Word.InRange parent.val := by
    rw [optional_orNull fun id => by simp [encode]]
    simp only [decode?_nodeId]
  have content : optional decode? (some (orNull encode node.content)) = some node.content ↔
      ∀ ref ∈ node.content, Word.InRange ref.id.val := by
    rw [optional_orNull fun ref => by simp [encode, Json.object]]
    simp only [decode?_ref]
  have read : decode? (encode node) = some node ↔
      decode? (encode node.id) = some node.id ∧
      optional decode? (some (orNull encode node.parent)) = some node.parent ∧
      readPosition? (.int node.position) = some node.position ∧
      optional decode? (some (orNull encode node.content)) = some node.content := by
    show (fields? _ 4 (encode node)).bind _ = _ ↔ _
    rcases node with ⟨id, parent, position, content⟩
    simp only [fields?_node, Option.bind_eq_bind, Option.bind_some, Option.bind_eq_some_iff,
      Option.some.injEq, Node.mk.injEq]
    grind
  rw [read, decode?_nodeId, parent, readPosition?_eq_some_iff, content]
  constructor
  · rintro ⟨id, parent, position, content⟩
    exact ⟨id, parent, position, content⟩
  · rintro ⟨id, parent, position, content⟩
    exact ⟨id, parent, position, content⟩

/-! ## Sketches -/

/-- The children of a sketch are what stands under their name. -/
theorem readChildrenIn?_eq (fields : List (String × Json)) :
    readChildrenIn? fields = (Entries.get? "children" fields).bind fun children =>
      match children with
      | .arr items => readSketches? items
      | _ => none := by
  induction fields with
  | nil => simp [readChildrenIn?]
  | cons field rest ih =>
      rcases field with ⟨name, content⟩
      by_cases here : name = "children"
      · cases content <;> simp [readChildrenIn?, Entries.get?, here]
      · cases content <;> simp [readChildrenIn?, Entries.get?, here, ih]

mutual

theorem readSketch?_writeSketch : ∀ sketch, readSketch? (writeSketch sketch) = some sketch
  | ⟨data, children⟩ => by
      rw [writeSketch, Json.object, readSketch?]
      simp [Entries.get?_insert, readData?, readChildrenIn?_eq,
        readSketches?_writeSketches children]

theorem readSketches?_writeSketches : ∀ sketches,
    readSketches? (writeSketches sketches) = some sketches
  | [] => by simp [writeSketches, readSketches?]
  | sketch :: rest => by
      rw [writeSketches, readSketches?, readSketch?_writeSketch sketch,
        readSketches?_writeSketches rest]
      rfl

end

/-! ## Interfaces -/

theorem optional_str (field : Option String) : optional Json.asStr? (field.map .str) = some field :=
  (optional_map (by simp) field).mpr fun _ _ => rfl

theorem fields?_field (field : ArgumentField) :
    fields? ["name", "data_type", "content_type", "verbose_name"] 2 (encode field) =
      some [some (.str field.name), some (encode field.type), field.model.map .str,
        field.label.map .str] := by
  simp [encode, Json.get?_object, Entries.get?_append, Entries.get?]

theorem get?_model (field : ArgumentField) :
    (encode field).get? "content_type" = field.model.map .str := by
  simp [encode, Json.get?_object, Entries.get?_append, Entries.get?]

theorem get?_label (field : ArgumentField) :
    (encode field).get? "verbose_name" = field.label.map .str := by
  simp [encode, Json.get?_object, Entries.get?_append, Entries.get?]

theorem decode?_field (field : ArgumentField) : decode? (encode field) = some field := by
  show (fields? _ 2 (encode field)).bind _ = _
  simp [fields?_field, optional_str, decode?_type, Json.asStr?]

theorem fields?_argument (argument : Argument) :
    fields? ["name", "content_type", "verbose_name", "fields"] 2 (encode argument) =
      some [some (.str argument.name), some (.str argument.model), argument.label.map .str,
        some (.arr (argument.fields.map encode))] := by
  simp [encode, Json.get?_object, Entries.get?_append, Entries.get?]

theorem get?_argumentLabel (argument : Argument) :
    (encode argument).get? "verbose_name" = argument.label.map .str := by
  simp [encode, Json.get?_object, Entries.get?_append, Entries.get?]

theorem decode?_argument (argument : Argument) : decode? (encode argument) = some argument := by
  show (fields? _ 2 (encode argument)).bind _ = _
  simp [fields?_argument, optional_str, listOrEmpty, mapM_map decode?_field, Json.asStr?]

theorem decode?_interface (interface : Interface) :
    decode? (encode interface) = some interface := by
  show (fields? _ 1 (Json.object _)).bind _ = _
  simp [Json.get?_object, Entries.get?, listOrEmpty, mapM_map decode?_argument,
    Json.asStr?]

/-! ## All formats -/

/-- What is written of the value is read as the value. -/
def ReadsBack {α : Type} [Wire α] (value : α) : Prop := decode? (encode value) = some value

/--
Values and content objects are read back exactly if their floats are finite and their numbers have
the width of their fields, and nodes exactly if their numbers have this width. Sources, sketches and
interfaces are read back in every case. A source, a model or a label that is absent leaves no field
behind.
-/
theorem formats_read_back :
    (∀ value : Value, ReadsBack value ↔ value.Finite) ∧
    (∀ content : Content, ReadsBack content ↔ content.Storable) ∧
    (∀ node : Node, ReadsBack node ↔ node.Storable) ∧
    (∀ source : Source, ReadsBack source) ∧
    (∀ sketch : Sketch, ReadsBack sketch) ∧
    (∀ interface : Interface, ReadsBack interface) ∧
    (∀ (name : String) (source : Option Source),
      (encode (Content.definition name source)).get? "source" = source.map encode) ∧
    (∀ field : ArgumentField,
      (encode field).get? "content_type" = field.model.map .str ∧
        (encode field).get? "verbose_name" = field.label.map .str) ∧
    (∀ argument : Argument, (encode argument).get? "verbose_name" = argument.label.map .str) :=
  ⟨readValue?_writeValue, decode?_content, decode?_node, decode?_source, readSketch?_writeSketch,
    decode?_interface, get?_source, fun field => ⟨get?_model field, get?_label field⟩,
    get?_argumentLabel⟩

/-- The type of each value stands beside it. -/
example : encode (Value.list [.date ⟨2024, 2, 29, by decide⟩, .null]) =
    .obj [("t", .str "List"), ("v", .arr [.obj [("t", .str "Date"), ("v", .str "2024-02-29")],
      .obj [("t", .str "Null")]])] := by rfl

end Wire

end RuleTree
