import RuleTree.Proofs.Creation.Create
import RuleTree.Proofs.Evaluation.Direct

/-!
# What created objects mean

The object that was made of the data of a part of a sketch means what the data mean
(`Creation.means_of_described`), with the definition of a variable in the place of its name.
-/

namespace RuleTree.Creation

open Step

variable {functions : Option Library} {names : Names} {records : Records}

/-! ## What objects mean -/


/-- An object means what a label means, with a definition in the place of a name. -/
inductive Means (names : Names) : Content → Label → Prop where
  | literal {content : Content} {value : Value} :
      content.constant? = some value → Means names content (.literal value)
  | use {name : String} {definition : ObjectId} :
      names.get? name = some definition → Means names (.use definition) (.use name)
  | assignment : Means names .assignment .assignment
  | binary (symbol : String) : Means names (.binary symbol) (.binary symbol)
  | unary (symbol : String) : Means names (.unary symbol) (.unary symbol)
  | call (title : String) : Means names (.call title) (.call title)

theorem require_eq_ok {α : Type} {data : Fields} {kind : Kind} {key : String}
    {read : Json → Option α} {value : α} :
    require data kind key read = .ok value ↔ (Entries.get? key data).bind read = some value := by
  unfold require
  cases Entries.get? key data with
  | none => simp
  | some json =>
      simp only [Option.bind_some]
      cases read json <;> simp

theorem operatorOf_eq_ok {data : Fields} {kind : Kind} {isOperator : String → Bool}
    {symbol : String} (read : operatorOf data kind isOperator = .ok symbol) :
    (Entries.get? "operator" data).bind Json.asStr? = some symbol ∧ isOperator symbol = true := by
  rcases Answer.bind_eq_ok.mp read with ⟨symbol', found, same⟩
  split at same
  · rename_i known
    cases same
    exact ⟨require_eq_ok.mp found, known⟩
  · cases same

theorem kindOf_eq_ok {data : Fields} {kind : Kind} {children : List Sketch} :
    kindOf data = .ok kind ↔ Sketch.kind? ⟨data, children⟩ = some kind := by
  unfold kindOf Sketch.kind? Sketch.getStr? Sketch.get?
  cases (Entries.get? "content_type" data).bind Json.asStr? with
  | none => simp
  | some tag =>
      simp only [Option.bind_some]
      cases Kind.ofTag? tag <;> simp

theorem kind?_bindData (names : Names) (data : Fields) (children children' : List Sketch) :
    Sketch.kind? ⟨bindData names data, children⟩ = Sketch.kind? ⟨data, children'⟩ := by
  unfold Sketch.kind? Sketch.getStr? Sketch.get?
  rw [get?_bindData names data (by decide) (by decide)]

/-- Data that are not those of a variable are not bound. -/
theorem bindData_of_ne {data : Fields} (other : Sketch.kind? ⟨data, []⟩ ≠ some .use) :
    bindData names data = data := by
  unfold bindData usedName?
  rw [if_neg other]
  rfl

/-- The data are none of a definition and name no address. -/
structure Written (data : Fields) : Prop where
  no_object : Entries.get? "object_id" data = none
  no_definition : Entries.get? "definition_id" data = none
  kind : Sketch.kind? ⟨data, []⟩ ≠ some .definition

/-- An object means what data say. -/
def Meant (names : Names) (records : Records) (data : Fields) (ref : ContentRef) : Prop :=
  ∃ content label, records.objects.get? ref = some content ∧ Sketch.label? data = some label ∧
    Means names content label ∧ Sketch.kind? ⟨data, []⟩ = some content.kind

/-- The data are those of a variable that goes by a name. -/
def Named (data : Fields) (name : String) : Prop :=
  Sketch.kind? ⟨data, []⟩ = some .use ∧ Entries.get? "name" data = some (.str name)

theorem usedName?_eq_some {part : Sketch} {name : String} :
    usedName? part = some name ↔ Named part.data name := by
  have kind : part.kind? = Sketch.kind? ⟨part.data, []⟩ := rfl
  unfold usedName? Named
  rw [← kind]
  by_cases use : part.kind? = some .use
  · rw [if_pos use, Sketch.getStr?, Sketch.get?]
    cases Entries.get? "name" part.data with
    | none => simp
    | some json => cases json <;> simp [Json.asStr?, use]
  · simp [use]

/-- A variable uses the definition that its name is bound to, and else the one with its number. -/
theorem definition_of_described {data : Fields} {definition : ObjectId}
    (described : contentOf functions .use (bindData names data) = .ok (.use definition)) :
    (∃ name, Named data name ∧ names.get? name = some definition) ∨
      (∀ name, Named data name → ∀ id, ¬names.get? name = some id) ∧
        (Entries.get? "definition_id" data).bind Json.asInt? = some definition.val := by
  unfold bindData at described
  cases used : (usedName? ⟨data, []⟩).bind names.get? with
  | none =>
      refine .inr ⟨fun name named id found => ?_, ?_⟩
      · have own : usedName? ⟨data, []⟩ = some name := usedName?_eq_some.mpr named
        rw [own, Option.bind_some, found] at used
        cases used
      · simp only [used, contentOf] at described
        split at described
        · rename_i number
          cases described
          exact number
        · cases described
  | some id =>
      rcases Option.bind_eq_some_iff.mp used with ⟨name, name_eq, found⟩
      refine .inl ⟨name, usedName?_eq_some.mp name_eq, ?_⟩
      simp only [used, contentOf, Entries.get?_insert, if_true, Option.bind_some] at described
      by_cases range : Word.InRange id.val
      · simp only [asInt?_int, if_pos range, Except.ok.injEq, Content.use.injEq] at described
        rw [found, ← described]
      · simp [asInt?_int, range] at described

/-- A variable without a number of its own uses the definition of its name. -/
theorem name_of_described {data : Fields} {definition : ObjectId}
    (absent : Entries.get? "definition_id" data = none)
    (described : contentOf functions .use (bindData names data) = .ok (.use definition)) :
    ∃ name, usedName? ⟨data, []⟩ = some name ∧ names.get? name = some definition := by
  rcases definition_of_described described with ⟨name, named, found⟩ | ⟨_, number⟩
  · exact ⟨name, usedName?_eq_some.mpr named, found⟩
  · simp [absent] at number

/-- An object is of the kind and has the value that data say.  The definition of a variable is the
one that its name resolves to; a variable whose name resolves to none has the definition with the
number in the data. -/
def Expresses (resolves : String → ObjectId → Prop) (data : Fields) (content : Content) : Prop :=
  Sketch.kind? ⟨data, []⟩ = some content.kind ∧
    match content with
    | .use definition =>
      (∃ name, Named data name ∧ resolves name definition) ∨
        (∀ name, Named data name → ∀ id, ¬resolves name id) ∧
          (Entries.get? "definition_id" data).bind Json.asInt? = some definition.val
    | .definition name source => Sketch.textOf? data "name" = some name ∧ source = none
    | .assignment => True
    | .binary symbol => Sketch.textOf? data "operator" = some symbol
    | .unary symbol => Sketch.textOf? data "operator" = some symbol
    | .call title => Sketch.textOf? data "definition" = some title
    | constant => Sketch.literal? data constant.kind = constant.constant?

/-- The object that is made of data is what the data say. -/
theorem expresses_of_described {data : Fields} {content : Content}
    (kind_eq : kindOf (bindData names data) = .ok content.kind)
    (described : contentOf functions content.kind (bindData names data) = .ok content) :
    Expresses (fun name id => names.get? name = some id) data content := by
  have kind_eq := (kind?_bindData names data [] []).symm.trans (kindOf_eq_ok.mp kind_eq)
  refine ⟨kind_eq, ?_⟩
  have unbound (other : content.kind ≠ .use) : bindData names data = data := by
    apply bindData_of_ne
    rw [kind_eq]
    exact fun same => other (Option.some.inj same)
  cases content with
  | use definition => exact definition_of_described described
  | definition name source =>
      rw [unbound (by simp [Content.kind])] at described
      rcases Answer.bind_eq_ok.mp described with ⟨name', read, same⟩
      cases same
      exact ⟨require_eq_ok.mp read, rfl⟩
  | assignment => trivial
  | integer value =>
      rw [unbound (by simp [Content.kind])] at described
      rcases Answer.bind_eq_ok.mp described with ⟨value', read, same⟩
      cases same
      simp [Content.kind, Sketch.literal?, require_eq_ok.mp read, Content.constant?]
  | float value =>
      rw [unbound (by simp [Content.kind])] at described
      rcases Answer.bind_eq_ok.mp described with ⟨value', read, same⟩
      cases same
      simp [Content.kind, Sketch.literal?, require_eq_ok.mp read, Content.constant?]
  | text value =>
      rw [unbound (by simp [Content.kind])] at described
      rcases Answer.bind_eq_ok.mp described with ⟨value', read, same⟩
      cases same
      simp [Content.kind, Sketch.literal?, Sketch.textOf?, require_eq_ok.mp read,
        Content.constant?]
  | boolean value =>
      rw [unbound (by simp [Content.kind])] at described
      rcases Answer.bind_eq_ok.mp described with ⟨value', read, same⟩
      cases same
      simp [Content.kind, Sketch.literal?, require_eq_ok.mp read, Content.constant?]
  | date value =>
      rw [unbound (by simp [Content.kind])] at described
      rcases Answer.bind_eq_ok.mp described with ⟨raw, read, same⟩
      split at same
      · rename_i date date_eq
        cases same
        simp [Content.kind, Sketch.literal?, Sketch.textOf?, require_eq_ok.mp read, date_eq,
          Content.constant?]
      · cases same
  | reference value =>
      rw [unbound (by simp [Content.kind])] at described
      rcases Answer.bind_eq_ok.mp described with ⟨model, read_model, described⟩
      rcases Answer.bind_eq_ok.mp described with ⟨id, read_id, same⟩
      cases same
      simp [Content.kind, Sketch.literal?, Sketch.textOf?, require_eq_ok.mp read_model,
        require_eq_ok.mp read_id, Content.constant?]
  | binary symbol =>
      rw [unbound (by simp [Content.kind])] at described
      rcases Answer.bind_eq_ok.mp described with ⟨symbol', read, same⟩
      cases same
      exact (operatorOf_eq_ok read).1
  | unary symbol =>
      rw [unbound (by simp [Content.kind])] at described
      rcases Answer.bind_eq_ok.mp described with ⟨symbol', read, same⟩
      cases same
      exact (operatorOf_eq_ok read).1
  | call title =>
      rw [unbound (by simp [Content.kind])] at described
      rcases Answer.bind_eq_ok.mp described with ⟨title', read, described⟩
      have same : (.ok (.call title') : Except CreationError Content) = .ok (.call title) := by
        split at described
        · split at described
          · exact described
          · cases described
        · exact described
      cases same
      exact require_eq_ok.mp read

theorem means_of_described {data : Fields} {ref : ContentRef} (written : Written data)
    (described : Described functions records (bindData names data) ref) :
    Meant names records data ref := by
  rcases described with ⟨content, kind_eq, described, stored⟩
  rcases expresses_of_described kind_eq described with ⟨kind_eq, expressed⟩
  suffices meant : ∃ label, Sketch.label? data = some label ∧ Means names content label by
    rcases meant with ⟨label, label_eq, meant⟩
    exact ⟨content, label, stored, label_eq, meant, kind_eq⟩
  unfold Sketch.label?
  rw [kind_eq]
  cases content with
  | use definition =>
      rcases expressed with ⟨name, named, found⟩ | ⟨_, number⟩
      · exact ⟨.use name, by simp [Content.kind, Sketch.textOf?, named.2, Json.asStr?], .use found⟩
      · simp [written.no_definition] at number
  | definition name source => exact absurd kind_eq written.kind
  | assignment => exact ⟨.assignment, rfl, .assignment⟩
  | binary symbol =>
      exact ⟨.binary symbol, congrArg (Option.map Label.binary) expressed, .binary symbol⟩
  | unary symbol =>
      exact ⟨.unary symbol, congrArg (Option.map Label.unary) expressed, .unary symbol⟩
  | call title => exact ⟨.call title, congrArg (Option.map Label.call) expressed, .call title⟩
  | integer value => exact ⟨_, congrArg (Option.map Label.literal) expressed, .literal rfl⟩
  | float value => exact ⟨_, congrArg (Option.map Label.literal) expressed, .literal rfl⟩
  | text value => exact ⟨_, congrArg (Option.map Label.literal) expressed, .literal rfl⟩
  | boolean value => exact ⟨_, congrArg (Option.map Label.literal) expressed, .literal rfl⟩
  | date value => exact ⟨_, congrArg (Option.map Label.literal) expressed, .literal rfl⟩
  | reference value => exact ⟨_, congrArg (Option.map Label.literal) expressed, .literal rfl⟩

/-! ## Names and their definitions -/

theorem named_of_defines {before : Records} {fresh : List String} {parts : List Sketch}
    (defines : Defines before .empty fresh names parts records) :
    (∀ name, name ∈ fresh ↔ ∃ id, names.get? name = some id) ∧
      ∀ name id, names.get? name = some id → before.lastObject < id.val ∧
        records.objects.get? ⟨.definition, id⟩ = some (.definition name none) := by
  have known {name : String} {id : ObjectId} (found : names.get? name = some id) :
      name ∈ fresh := by
    by_contra absent
    rw [defines.others name absent] at found
    cases found
  constructor
  · intro name
    constructor
    · intro member
      rcases defines.own name member with ⟨id, found, _⟩
      exact ⟨id, found⟩
    · rintro ⟨id, found⟩
      exact known found
  · intro name id found
    rcases defines.own name (known found) with ⟨id', found', above, object⟩
    rw [found] at found'
    rcases Option.some.inj found' with rfl
    exact ⟨above, object⟩

theorem usedName?_eq (part : Sketch) : usedName? part = part.used? := by
  rcases part with ⟨data, children⟩
  unfold usedName? Sketch.used? Sketch.label?
  rw [show Sketch.kind? ⟨data, children⟩ = Sketch.kind? ⟨data, []⟩ from rfl]
  by_cases use : Sketch.kind? ⟨data, []⟩ = some .use
  · simp only [use, if_true]
    rw [show Sketch.getStr? ⟨data, children⟩ "name" = Sketch.textOf? data "name" from rfl]
    cases Sketch.textOf? data "name" <;> rfl
  · rw [if_neg use]
    split
    · rename_i name label_eq
      split at label_eq
      · rename_i kind_eq
        exact absurd kind_eq use
      all_goals simp at label_eq
    · rfl

theorem newNames_empty (tree : Sketch) : newNames .empty tree = tree.variableNames := by
  unfold newNames Sketch.variableNames
  rw [show usedName? = Sketch.used? from funext usedName?_eq, List.filter_eq_self.mpr]
  intro name _
  rfl

/-! ## What was checked -/

theorem check_eq_ok {isRoot : Bool} {data : Fields} {children : List Sketch}
    (checked : check functions isRoot ⟨data, children⟩ = .ok ()) :
    checkNode functions isRoot ⟨data, children⟩ = .ok () ∧
      checkAll functions children = .ok () := by
  rcases Answer.bind_eq_ok.mp checked with ⟨_, here, below⟩
  exact ⟨here, below⟩

mutual

theorem check_eq_forM : ∀ tree : Sketch,
    check functions false tree = forM tree.walk (checkNode functions false)
  | ⟨data, children⟩ => by
      rw [check, Sketch.walk, List.forM_cons, checkAll_eq_forM]

/-- Trees are checked node by node, in the order of a walk. -/
theorem checkAll_eq_forM : ∀ trees : List Sketch,
    checkAll functions trees = forM (Sketch.walkAll trees) (checkNode functions false)
  | [] => rfl
  | tree :: rest => by
      rw [checkAll, Sketch.walkAll, List.forM_append, check_eq_forM, checkAll_eq_forM]

end

theorem checkNode_parts {trees : List Sketch} (checked : checkAll functions trees = .ok ()) :
    ∀ part ∈ Sketch.walkAll trees, ∃ isRoot, checkNode functions isRoot part = .ok () := by
  rw [checkAll_eq_forM] at checked
  exact fun part member => ⟨false, Answer.forM_eq_ok.mp checked part member⟩

/-- Every node of a checked tree was checked. -/
theorem checkNode_part {isRoot : Bool} {tree : Sketch}
    (checked : check functions isRoot tree = .ok ()) :
    ∀ part ∈ tree.walk, ∃ isRoot, checkNode functions isRoot part = .ok () := by
  intro part member
  rcases tree with ⟨data, children⟩
  rcases check_eq_ok checked with ⟨here, below⟩
  rcases List.mem_cons.mp member with rfl | member
  · exact ⟨isRoot, here⟩
  · exact checkNode_parts below part member

theorem expectedChildren_fixed {kind : Kind} {count : Nat} (fixed : kind.arity = .fixed count)
    (tree : Sketch) : expectedChildren functions kind tree = some count := by
  unfold expectedChildren
  rw [fixed]

/-- A checked node has as many children as it is expected to have, and an assignment has a variable
to assign to. -/
theorem checkNode_eq_ok {isRoot : Bool} {tree : Sketch} {kind : Kind}
    (checked : checkNode functions isRoot tree = .ok ()) (kind_eq : tree.kind? = some kind) :
    (∀ count, expectedChildren functions kind tree = some count → tree.children.length = count) ∧
      (kind = .assignment → tree.children.head?.bind Sketch.kind? = some .use) := by
  unfold checkNode at checked
  rw [kind_eq] at checked
  rcases Answer.bind_eq_ok.mp checked with ⟨_, counted, target⟩
  constructor
  · intro count expected
    simp only [checkCount, expected] at counted
    split at counted
    · rename_i same
      exact same.symm
    · cases counted
  · rintro rfl
    simp only [checkTarget, if_true] at target
    split at target
    · assumption
    · cases target

theorem length_mapDataAll (change : Fields → Fields) (trees : List Sketch) :
    (Sketch.mapDataAll change trees).length = trees.length := by
  induction trees with
  | nil => rfl
  | cons tree rest ih =>
      show (Sketch.mapDataAll change rest).length + 1 = rest.length + 1
      rw [ih]

end RuleTree.Creation
