import RuleTree.Program.Version

/-!
# What JSON arguments stand for

A program is given JSON.  `Json.Denotes` says which value plain JSON stands for, by its kind.  An
entity stands for a reference, and a field for a value that suits its type.  A field lies at the end
of a path into the argument, which is its name between the dots.  Reading the arguments of a program
finds exactly these values (`Version.entityValue_eq_some`, `Version.follow_eq_some`,
`Version.fieldValue_eq_some`).
-/

namespace RuleTree

namespace Json

mutual

/-- Plain JSON stands for a value.  An integer that is no word stands for the float nearest to it,
and of the objects only references stand for something. -/
inductive Denotes : Json → Value → Prop where
  | null : Denotes .null .null
  | bool (b : Bool) : Denotes (.bool b) (.bool b)
  | int (n : Int64) : Denotes (.int n.toInt) (.int n)
  | large {n : Int} : ¬Word.InRange n → Denotes (.int n) (.float (Binary64.ofInt n))
  | float (x : Float) : Denotes (.float x) (.float x)
  | text (s : String) : Denotes (.str s) (.str s)
  | list {items : List Json} {values : List Value} :
      DenotesAll items values → Denotes (.arr items) (.list values)
  | reference {fields : Fields} {model : String} {id : Int64} :
      get? "model" (.obj fields) = some (.str model) →
        get? "id" (.obj fields) = some (.int id.toInt) →
          Denotes (.obj fields) (.reference ⟨model, id⟩)

/-- Items stand for values, one by one. -/
inductive DenotesAll : List Json → List Value → Prop where
  | nil : DenotesAll [] []
  | cons {item : Json} {value : Value} {items : List Json} {values : List Value} :
      Denotes item value → DenotesAll items values → DenotesAll (item :: items) (value :: values)

end

/-- What JSON stands for as an entity of some type.  An object stands for a reference by its number,
and anything else for what it stands for anyway. -/
inductive DenotesEntity (model : String) : Json → Value → Prop where
  | reference {fields : Fields} {id : Int64} : get? "id" (.obj fields) = some (.int id.toInt) →
      DenotesEntity model (.obj fields) (.reference ⟨model, id⟩)
  | plain {json : Json} {value : Value} : (∀ fields, json ≠ .obj fields) → Denotes json value →
      DenotesEntity model json value

/-- What JSON stands for in a field.  Entities are references, and in a field for dates a text is
read as a date. -/
inductive DenotesField (field : ArgumentField) : Json → Value → Prop where
  | null : DenotesField field .null .null
  | entity {json : Json} {value : Value} : field.type = .model →
      DenotesEntity (field.model.getD "") json value → DenotesField field json value
  | date {text : String} {date : Date} : field.type = .date →
      Date.read? text.toList = some date → DenotesField field (.str text) (.date date)
  | plain {json : Json} {value : Value} : field.type ≠ .model →
      (field.type = .date → ∀ text, json ≠ .str text) → Denotes json value →
        DenotesField field json value

/-- A path of names leads through nested objects. -/
inductive Leads : Json → List String → Json → Prop where
  | here (json : Json) : Leads json [] json
  | into {json inner target : Json} {step : String} {path : List String} :
      json.get? step = some inner → Leads inner path target → Leads json (step :: path) target

end Json

/-- A name consists of steps with dots between them, and there are no dots in the steps. -/
inductive Dotted : String → List String → Prop where
  | last {step : String} : '.' ∉ step.toList → Dotted step [step]
  | more {step name : String} {path : List String} : '.' ∉ step.toList → Dotted name path →
      Dotted (step ++ "." ++ name) (step :: path)

/-! ## Plain JSON -/

open Json

theorem Json.asInt64?_eq_some {json : Json} {n : Int64} :
    json.asInt64? = some n ↔ json = .int n.toInt := by
  constructor
  · intro read
    cases json with
    | int m => rw [Word.toInt_of_ofInt? read]
    | _ => cases read
  · rintro rfl
    exact Word.ofInt?_toInt n

theorem Json.asStr?_eq_some {json : Json} {s : String} :
    json.asStr? = some s ↔ json = .str s := by
  cases json with
  | str text => simp [asStr?]
  | _ => simp [asStr?]

namespace Value

mutual

theorem ofJson?_eq_some : ∀ {json : Json} {value : Value},
    ofJson? json = some value ↔ json.Denotes value
  | .null, value => by
      constructor
      · rintro ⟨⟩
        exact .null
      · rintro ⟨⟩
        rfl
  | .bool b, value => by
      constructor
      · rintro ⟨⟩
        exact .bool b
      · rintro ⟨⟩
        rfl
  | .int n, value => by
      cases word : Word.ofInt? n with
      | some w =>
          have same := Word.toInt_of_ofInt? word
          simp only [ofJson?, word]
          constructor
          · rintro ⟨⟩
            exact same ▸ .int w
          · intro denotes
            cases denotes with
            | int m => rw [Option.some.inj ((Word.ofInt?_toInt m).symm.trans word)]
            | large out => exact absurd (same ▸ Word.inRange_toInt w) out
      | none =>
          have out := Word.ofInt?_eq_none_iff.mp word
          simp only [ofJson?, word]
          constructor
          · rintro ⟨⟩
            exact .large out
          · intro denotes
            cases denotes with
            | int m => exact absurd (Word.inRange_toInt m) out
            | large => rfl
  | .float x, value => by
      constructor
      · rintro ⟨⟩
        exact .float x
      · rintro ⟨⟩
        rfl
  | .str s, value => by
      constructor
      · rintro ⟨⟩
        exact .text s
      · rintro ⟨⟩
        rfl
  | .arr items, value => by
      simp only [ofJson?, Option.map_eq_some_iff]
      constructor
      · rintro ⟨values, read, rfl⟩
        exact .list (ofJsonItems?_eq_some.mp read)
      · rintro ⟨⟩
        rename_i values denotes
        exact ⟨values, ofJsonItems?_eq_some.mpr denotes, rfl⟩
  | .obj fields, value => by
      simp only [ofJson?, Option.bind_eq_bind, Option.bind_eq_some_iff, asStr?_eq_some,
        asInt64?_eq_some]
      constructor
      · rintro ⟨_, model_found, model, rfl, _, id_found, id, rfl, ⟨⟩⟩
        exact .reference model_found id_found
      · rintro ⟨⟩
        rename_i model id model_found id_found
        exact ⟨_, model_found, model, rfl, _, id_found, id, rfl, rfl⟩

theorem ofJsonItems?_eq_some : ∀ {items : List Json} {values : List Value},
    ofJsonItems? items = some values ↔ DenotesAll items values
  | [], values => by
      constructor
      · rintro ⟨⟩
        exact .nil
      · rintro ⟨⟩
        rfl
  | item :: rest, values => by
      simp only [ofJsonItems?, Option.bind_eq_bind, Option.bind_eq_some_iff]
      constructor
      · rintro ⟨value, here, others, later, ⟨⟩⟩
        exact .cons (ofJson?_eq_some.mp here) (ofJsonItems?_eq_some.mp later)
      · rintro ⟨⟩
        rename_i value others here later
        exact ⟨value, ofJson?_eq_some.mpr here, others, ofJsonItems?_eq_some.mpr later, rfl⟩

end

end Value

/-! ## Arguments and fields -/

namespace Version

theorem entityValue_eq_some {json : Json} {model : String} {value : Value} :
    entityValue json model = some value ↔ json.DenotesEntity model value := by
  by_cases object : ∃ fields, json = .obj fields
  · rcases object with ⟨fields, rfl⟩
    simp only [entityValue, Option.bind_eq_bind, Option.bind_eq_some_iff, asInt64?_eq_some]
    constructor
    · rintro ⟨_, found, id, rfl, ⟨⟩⟩
      exact .reference found
    · intro denotes
      cases denotes with
      | @reference _ id found => exact ⟨_, found, id, rfl, rfl⟩
      | plain other => exact absurd rfl (other fields)
  · have other : ∀ fields, json ≠ .obj fields := fun fields same => object ⟨fields, same⟩
    have plain : entityValue json model = Value.ofJson? json := by
      cases json with
      | obj fields => exact absurd rfl (other fields)
      | _ => rfl
    rw [plain, Value.ofJson?_eq_some]
    constructor
    · exact .plain other
    · intro denotes
      cases denotes with
      | reference => exact absurd rfl (other _)
      | plain _ denotes => exact denotes

theorem follow_eq_some {json target : Json} {path : List String} :
    follow json path = some target ↔ json.Leads path target := by
  induction path generalizing json with
  | nil =>
      constructor
      · rintro ⟨⟩
        exact .here _
      · rintro ⟨⟩
        rfl
  | cons step rest ih =>
      simp only [follow, Option.bind_eq_some_iff, ih]
      constructor
      · rintro ⟨inner, found, leads⟩
        exact .into found leads
      · rintro ⟨⟩
        rename_i inner found leads
        exact ⟨inner, found, leads⟩

/-- Pieces without dots are the steps of the name that they make with dots between them. -/
theorem dotted_joinWith {pieces : List (List Char)} (some_piece : pieces ≠ [])
    (plain : ∀ piece ∈ pieces, '.' ∉ piece) :
    Dotted (String.ofList (Text.joinWith '.' pieces)) (pieces.map String.ofList) := by
  induction pieces with
  | nil => exact absurd rfl some_piece
  | cons piece rest ih =>
      have here : '.' ∉ (String.ofList piece).toList := by
        rw [String.toList_ofList]
        exact plain piece (by simp)
      cases rest with
      | nil => exact .last here
      | cons next others =>
          have joined : String.ofList (Text.joinWith '.' (piece :: next :: others)) =
              String.ofList piece ++ "." ++
                String.ofList (Text.joinWith '.' (next :: others)) := by
            apply String.toList_injective
            simp [Text.joinWith]
          rw [joined]
          exact .more here (ih (by simp) fun other member => plain other (by simp [member]))

/-- The steps of a name are what it consists of between the dots. -/
theorem steps_eq {name : String} {path : List String} : steps name = path ↔ Dotted name path := by
  constructor
  · rintro rfl
    have whole := dotted_joinWith (Text.splitAt_ne_nil '.' name.toList)
      fun piece => Text.not_mem_of_mem_splitAt
    rwa [Text.joinWith_splitAt, String.ofList_toList] at whole
  · intro dotted
    induction dotted with
    | last plain => simp [steps, Text.splitAt_of_not_mem plain]
    | @more step name path plain _ ih =>
        have text : (step ++ "." ++ name).toList = step.toList ++ '.' :: name.toList := by simp
        rw [steps, text, Text.splitAt_append plain, List.map_cons, String.ofList_toList]
        exact congrArg _ ih

theorem fieldValue_eq_some {json : Json} {field : ArgumentField} {value : Value} :
    fieldValue json field = some value ↔ json.DenotesField field value := by
  constructor
  · intro read
    unfold fieldValue at read
    split at read
    · cases read
      exact .null
    · rename_i model
      exact .entity model (entityValue_eq_some.mp read)
    · rename_i text is_date
      rcases Option.map_eq_some_iff.mp read with ⟨date, date_read, rfl⟩
      exact .date is_date date_read
    · rename_i not_model not_text
      exact .plain not_model (fun is_date text same => not_text text same is_date)
        (Value.ofJson?_eq_some.mp read)
  · intro denotes
    cases denotes with
    | null => rfl
    | entity model denotes =>
        rw [← entityValue_eq_some] at denotes
        rw [← denotes]
        cases json with
        | null => rfl
        | _ => simp only [fieldValue, model]
    | date is_date read => simp [fieldValue, is_date, read]
    | plain not_model not_text denotes =>
        rw [← Value.ofJson?_eq_some] at denotes
        rw [← denotes]
        cases json with
        | null => rfl
        | str text =>
            cases type : field.type with
            | model => exact absurd type not_model
            | date => exact absurd rfl (not_text type text)
            | _ => simp only [fieldValue, type]
        | _ =>
            cases type : field.type with
            | model => exact absurd type not_model
            | _ => simp only [fieldValue, type]

end Version

end RuleTree
