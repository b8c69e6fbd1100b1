import RuleTree.Proofs.Block.Drawing
import RuleTree.Proofs.Creation.Success
import RuleTree.Proofs.Evaluation.Meaning

/-!
# Creating what a document shows

The sketches of figures that fit pass the checks and describe objects (`Block.check_sketches`,
`Block.ready_sketches`), and the object that is made of the data of a mark says what the mark says
(`Block.marks_of_described`).
-/

namespace RuleTree.Block

open Creation

variable {names : Names} {records : Records}

/-! ## The data of a mark -/

namespace Mark

/-- The kind of the object that is made of the data. -/
def kind : Mark → Kind
  | integer _ => .integer
  | float _ => .float
  | text _ => .text
  | boolean _ => .boolean
  | date _ => .date
  | reference _ => .reference
  | use _ => .use
  | assignment _ => .assignment
  | binary _ => .binary
  | unary _ => .unary
  | call _ => .call

/-- The object that is made of the data, with a definition in the place of a name. -/
def content? (names : Names) : Mark → Option Content
  | integer n => some (.integer n)
  | float x => some (.float x)
  | text s => some (.text s)
  | boolean b => some (.boolean b)
  | date d => some (.date d)
  | reference r => some (.reference r)
  | use name => (names.get? name).map .use
  | assignment _ => some .assignment
  | binary op => some (.binary op.symbol)
  | unary op => some (.unary op.symbol)
  | call title => some (.call title)

end Mark

theorem get?_withId {id : Option String} {data : Fields} {key : String} (other : key ≠ "id") :
    Entries.get? key (Figure.withId id data) = Entries.get? key data := by
  cases id with
  | none => rfl
  | some id =>
      show Entries.get? key (Entries.insert "id" (.str id) data) = _
      rw [Entries.get?_insert, if_neg (Ne.symm other)]

theorem tag_mark (mark : Mark) :
    Entries.get? "content_type" mark.data = some (.str mark.kind.tag) := by
  cases mark <;>
    simp [Mark.data, Mark.kind, Sketch.dataOf, Entries.get?_insert, Entries.get?]

theorem kindOf_mark (mark : Mark) (id : Option String) :
    kindOf (bindData names (Figure.withId id mark.data)) = .ok mark.kind := by
  unfold kindOf
  rw [get?_bindData names _ (by decide) (by decide), get?_withId (by decide), tag_mark]
  simp [Json.asStr?, Kind.ofTag?_tag]

theorem kind?_mark (mark : Mark) (id : Option String) (children : List Sketch) :
    Sketch.kind? ⟨Figure.withId id mark.data, children⟩ = some mark.kind := by
  unfold Sketch.kind? Sketch.getStr? Sketch.get?
  rw [get?_withId (by decide), tag_mark]
  simp [Json.asStr?, Kind.ofTag?_tag]

theorem no_object_mark (mark : Mark) (id : Option String) :
    Entries.get? "object_id" (Figure.withId id mark.data) = none := by
  rw [get?_withId (by decide)]
  cases mark <;> simp [Mark.data, Sketch.dataOf, Entries.get?_insert, Entries.get?]

theorem usedName?_use (name : String) (id : Option String) (children : List Sketch) :
    usedName? ⟨Figure.withId id (Mark.use name).data, children⟩ = some name := by
  have named : Entries.get? "name" (Figure.withId id (Mark.use name).data) =
      some (.str name) := by
    rw [get?_withId (by decide)]
    simp [Mark.data, Sketch.dataOf, Entries.get?_insert]
  have used : Sketch.kind? ⟨Figure.withId id (Mark.use name).data, children⟩ = some .use :=
    kind?_mark (.use name) id children
  unfold usedName?
  rw [if_pos used, Sketch.getStr?, Sketch.get?, named]
  rfl

theorem contentOf_use {name : String} {definition : ObjectId} (id : Option String)
    (found : names.get? name = some definition) (range : Word.InRange definition.val) :
    contentOf none .use (bindData names (Figure.withId id (Mark.use name).data)) =
      .ok (.use definition) := by
  have word : Word.ofInt? definition.val = some (Int64.ofInt definition.val) := by
    simp [Word.ofInt?, range]
  unfold bindData
  rw [usedName?_use, Option.bind_some, found]
  simp [contentOf, Entries.get?_insert, Json.asInt?, Json.asInt64?, word,
    Word.toInt_of_ofInt? word]

/-- The data of a mark describe its object. -/
theorem contentOf_mark {mark : Mark} {content : Content} (id : Option String)
    (readable : mark.Readable) (known : mark.content? names = some content)
    (range : ∀ name definition, mark = .use name → names.get? name = some definition →
      Word.InRange definition.val) :
    contentOf none mark.kind (bindData names (Figure.withId id mark.data)) = .ok content := by
  have unbound (other : mark.kind ≠ .use) :
      bindData names (Figure.withId id mark.data) = Figure.withId id mark.data := by
    apply bindData_of_ne
    rw [kind?_mark]
    exact fun same => other (Option.some.inj same)
  cases mark with
  | use name =>
      rcases Option.map_eq_some_iff.mp known with ⟨definition, found, rfl⟩
      exact contentOf_use id found (range name definition rfl found)
  | assignment name =>
      cases known
      rfl
  | integer n =>
      cases known
      rw [unbound (by simp [Mark.kind])]
      simp [Mark.kind, contentOf, require, get?_withId, Mark.data, Sketch.dataOf,
        Entries.get?_insert, Json.asInt64?, Word.ofInt?_toInt]
  | float x =>
      cases known
      rw [unbound (by simp [Mark.kind])]
      simp [Mark.kind, contentOf, require, get?_withId, Mark.data, Sketch.dataOf,
        Entries.get?_insert, Json.ofFloat, show Binary64.isFinite x = true from readable,
        Json.asFloat?]
  | text s =>
      cases known
      rw [unbound (by simp [Mark.kind])]
      simp [Mark.kind, contentOf, require, get?_withId, Mark.data, Sketch.dataOf,
        Entries.get?_insert, Json.asStr?]
  | boolean b =>
      cases known
      rw [unbound (by simp [Mark.kind])]
      simp [Mark.kind, contentOf, require, get?_withId, Mark.data, Sketch.dataOf,
        Entries.get?_insert, Json.asBool?]
  | date d =>
      cases known
      rw [unbound (by simp [Mark.kind])]
      simp [Mark.kind, contentOf, require, get?_withId, Mark.data, Sketch.dataOf,
        Entries.get?_insert, Json.asStr?, Date.text, Date.read?_write]
  | reference r =>
      cases known
      rw [unbound (by simp [Mark.kind])]
      simp [Mark.kind, contentOf, require, get?_withId, Mark.data, Sketch.dataOf,
        Entries.get?_insert, Json.asStr?, Json.asInt64?, Word.ofInt?_toInt]
  | binary op =>
      cases known
      rw [unbound (by simp [Mark.kind])]
      simp [Mark.kind, contentOf, operatorOf, require, get?_withId, Mark.data, Sketch.dataOf,
        Entries.get?_insert, Json.asStr?, BinaryOp.ofSymbol?_symbol]
  | unary op =>
      cases known
      rw [unbound (by simp [Mark.kind])]
      simp [Mark.kind, contentOf, operatorOf, require, get?_withId, Mark.data, Sketch.dataOf,
        Entries.get?_insert, Json.asStr?, UnaryOp.ofSymbol?_symbol]
  | call title =>
      cases known
      rw [unbound (by simp [Mark.kind])]
      simp [Mark.kind, contentOf, require, get?_withId, Mark.data, Sketch.dataOf,
        Entries.get?_insert, Json.asStr?]

/-- An object that the data of a mark describe says what the mark says. -/
theorem marks_of_described {mark : Mark} {id : Option String} {ref : ContentRef}
    (readable : mark.Readable)
    (named : ∀ name definition, names.get? name = some definition →
      ∃ source, records.objects.get? ⟨.definition, definition⟩ = some (.definition name source))
    (described : Described none records (bindData names (Figure.withId id mark.data)) ref) :
    ∃ content, records.objects.get? ref = some content ∧ content.kind = mark.kind ∧
      Marks records content mark := by
  rcases described with ⟨content, kind_eq, described, stored⟩
  rw [kindOf_mark] at kind_eq
  have same : content.kind = mark.kind := (Except.ok.inj kind_eq).symm
  refine ⟨content, stored, same, ?_⟩
  rw [same] at described
  have made {content' : Content} (known : mark.content? names = some content')
      (other : ∀ name, mark ≠ .use name) : content = content' := by
    rw [contentOf_mark id readable known fun name _ use => absurd use (other name)] at described
    exact (Except.ok.inj described).symm
  cases mark with
  | use name =>
      have no_definition :
          Entries.get? "definition_id" (Figure.withId id (Mark.use name).data) = none := by
        rw [get?_withId (by decide)]
        simp [Mark.data, Sketch.dataOf, Entries.get?_insert, Entries.get?]
      cases found : names.get? name with
      | none =>
          simp [Mark.kind, bindData, usedName?_use, found, contentOf, no_definition] at described
      | some definition =>
          by_cases range : Word.InRange definition.val
          · rw [Mark.kind, contentOf_use id found range] at described
            cases described
            rcases named name definition found with ⟨source, defined⟩
            exact .use defined
          · have unread : Word.ofInt? definition.val = none := Word.ofInt?_eq_none_iff.mpr range
            simp [Mark.kind, bindData, usedName?_use, found, contentOf, Entries.get?_insert,
              Json.asInt?, Json.asInt64?, unread] at described
  | integer n =>
      cases made rfl (by simp)
      exact .integer n
  | float x =>
      cases made rfl (by simp)
      exact .float readable
  | text s =>
      cases made rfl (by simp)
      exact .text s
  | boolean b =>
      cases made rfl (by simp)
      exact .boolean b
  | date d =>
      cases made rfl (by simp)
      exact .date d
  | reference r =>
      cases made rfl (by simp)
      exact .reference r
  | assignment name =>
      cases made rfl (by simp)
      exact .assignment name
  | binary op =>
      cases made rfl (by simp)
      exact .binary (BinaryOp.ofSymbol?_symbol op)
  | unary op =>
      cases made rfl (by simp)
      exact .unary (UnaryOp.ofSymbol?_symbol op)
  | call title =>
      cases made rfl (by simp)
      exact .call title

/-! ## Objects can be made -/

theorem ready_mark {mark : Mark} (id : Option String) (readable : mark.Readable)
    (bound : ∀ name, mark = .use name →
      ∃ definition, names.get? name = some definition ∧ Word.InRange definition.val) :
    Ready none (bindData names (Figure.withId id mark.data)) := by
  have known : ∃ content, mark.content? names = some content := by
    cases mark with
    | use name =>
        rcases bound name rfl with ⟨definition, found, _⟩
        exact ⟨.use definition, by rw [Mark.content?, found]; rfl⟩
    | _ => exact ⟨_, rfl⟩
  rcases known with ⟨content, known⟩
  refine ⟨?_, mark.kind, content, kindOf_mark mark id, contentOf_mark id readable known ?_⟩
  · rw [get?_bindData names _ (by decide) (by decide), no_object_mark]
  · intro name definition use found
    rcases bound name use with ⟨definition', found', range⟩
    rw [found] at found'
    cases found'
    exact range

mutual

/-- Each part of the sketch of a figure is again the sketch of a figure.  The variable of an
assignment is that of a figure without operands. -/
theorem exists_figure : ∀ {figure : Figure}, ∀ part ∈ figure.sketch.walk,
    ∃ figure' : Figure, part = figure'.sketch ∧ (figure.Fits → figure'.Fits)
  | ⟨mark, id, operands⟩, part, member => by
      rcases List.mem_cons.mp member with rfl | below
      · exact ⟨⟨mark, id, operands⟩, rfl, fun fits => fits⟩
      · have inside (operand : part ∈ Sketch.walkAll (Figure.sketches operands)) :
            ∃ figure' : Figure, part = figure'.sketch ∧
              (Figure.Fits ⟨mark, id, operands⟩ → figure'.Fits) := by
          rcases exists_figures part operand with ⟨figure', same, fits⟩
          exact ⟨figure', same, fun given => fits given.2.2⟩
        cases mark with
        | assignment name =>
            rcases List.mem_cons.mp below with rfl | operand
            · exact ⟨⟨.use name, none, []⟩, rfl, fun _ => ⟨rfl, trivial, trivial⟩⟩
            · exact inside operand
        | _ => exact inside below

theorem exists_figures : ∀ {figures : List Figure},
    ∀ part ∈ Sketch.walkAll (Figure.sketches figures),
      ∃ figure : Figure, part = figure.sketch ∧ (Figure.AllFit figures → figure.Fits)
  | [], _, impossible => by cases impossible
  | _ :: _, part, member => by
      rcases List.mem_append.mp member with here | later
      · rcases exists_figure part here with ⟨figure, same, fits⟩
        exact ⟨figure, same, fun fit => fits fit.1⟩
      · rcases exists_figures part later with ⟨figure, same, fits⟩
        exact ⟨figure, same, fun fit => fits fit.2⟩

end

theorem data_sketch (figure : Figure) :
    figure.sketch.data = Figure.withId figure.id figure.mark.data := by
  rcases figure with ⟨mark, id, operands⟩
  rfl

/-- What the data of a mark describe is neither a definition nor given by an address. -/
theorem written_mark (mark : Mark) (id : Option String) :
    Written (Figure.withId id mark.data) := by
  refine ⟨no_object_mark mark id, ?_, ?_⟩
  · rw [get?_withId (by decide)]
    cases mark <;> simp [Mark.data, Sketch.dataOf, Entries.get?_insert, Entries.get?]
  · rw [kind?_mark]
    cases mark <;> simp [Mark.kind]

theorem written_block (figures : List Figure) :
    ∀ part ∈ (Sketch.block (Figure.sketches figures)).walk, Written part.data := by
  intro part member
  have kindless : Sketch.kind? ⟨[], []⟩ ≠ some .definition := by decide
  rcases List.mem_cons.mp member with rfl | below
  · exact ⟨rfl, rfl, kindless⟩
  · rcases exists_figures part below with ⟨figure, rfl, _⟩
    rw [data_sketch]
    exact written_mark figure.mark figure.id

theorem mem_newNames {statements : List Sketch} {part : Sketch} {name : String}
    (member : part ∈ Sketch.walkAll statements) (used : usedName? part = some name) :
    name ∈ newNames .empty (.block statements) := by
  refine List.mem_eraseDups.mpr (List.mem_filter.mpr ⟨?_, rfl⟩)
  exact List.mem_filterMap.mpr ⟨part, List.mem_cons_of_mem _ member, used⟩

/-- With all names bound, every part of the sketches of figures describes an object. -/
theorem ready_sketches {figures : List Figure} (fit : Figure.AllFit figures)
    (bound : Bound names (newNames .empty (.block (Figure.sketches figures)))) :
    ∀ part ∈ Sketch.walkAll (Figure.sketches figures), Ready none (bindData names part.data) := by
  intro part member
  rcases exists_figures part member with ⟨⟨mark, id, operands⟩, rfl, fits⟩
  apply ready_mark id (fits fit).readable
  rintro name rfl
  exact bound name (mem_newNames member (usedName?_use name id _))

/-! ## The checks pass -/

theorem length_operandSlots_binary (op : BinaryOp) :
    (operandSlots (ofBinary op).blockType).length = 2 := by
  cases op <;> decide

theorem length_operandSlots_unary (op : UnaryOp) :
    (operandSlots (ofUnary op).blockType).length = 1 := by
  cases op <;> decide

theorem arity_mark (mark : Mark) (operands count : Nat)
    (counted : (mark.slots operands).length = operands) (fixed : mark.kind.arity = .fixed count) :
    mark.target.length + operands = count := by
  cases mark with
  | call title => cases fixed
  | binary op =>
      cases fixed
      rw [← counted, Mark.slots, length_operandSlots_binary]
      rfl
  | unary op =>
      cases fixed
      rw [← counted, Mark.slots, length_operandSlots_unary]
      rfl
  | assignment name =>
      cases fixed
      rw [← counted]
      rfl
  | _ =>
      cases fixed
      simpa [Mark.target, Mark.slots] using counted.symm

theorem length_sketches (figures : List Figure) :
    (Figure.sketches figures).length = figures.length := by
  induction figures with
  | nil => rfl
  | cons figure rest ih => simp [Figure.sketches, ih]

/-- Without a library, nothing can be wrong with a node but how many children it has, as long as its
kind is known and what is assigned to is a variable. -/
theorem checkNode_eq {isRoot : Bool} {tree : Sketch} {kind : Kind}
    (kind_eq : tree.kind? = some kind)
    (target : kind = .assignment → tree.children.head?.bind Sketch.kind? = some .use) :
    checkNode none isRoot tree =
      match kind.arity with
      | .fixed expected =>
          if expected = tree.children.length then .ok ()
          else .error (.arity kind expected tree.children.length)
      | .declared => .ok () := by
  have aimed : checkTarget kind tree = .ok () := by
    unfold checkTarget
    split
    · rename_i assignment
      rw [target assignment]
    · rfl
  unfold checkNode
  simp only [kind_eq, aimed]
  unfold checkCount expectedChildren
  cases arity : kind.arity with
  | fixed expected =>
      by_cases counted : expected = tree.children.length
      · simp [counted]
      · simp only [counted, if_false]
        rfl
  | declared => cases Sketch.getStr? _ "definition" <;> rfl

theorem checkNode_sketch {isRoot : Bool} (figure : Figure) :
    checkNode none isRoot (figure.sketch.mapData (bindData names)) =
      match figure.mark.kind.arity with
      | .fixed expected =>
          if expected = figure.sketch.children.length then .ok ()
          else .error (.arity figure.mark.kind expected figure.sketch.children.length)
      | .declared => .ok () := by
  rcases figure with ⟨mark, id, operands⟩
  let children := Sketch.mapDataAll (bindData names) (mark.target ++ Figure.sketches operands)
  have kind : Sketch.kind? ⟨bindData names (Figure.withId id mark.data), children⟩ =
      some mark.kind := by
    rw [kind?_bindData names _ children [], kind?_mark]
  have target (assignment : mark.kind = .assignment) :
      children.head?.bind Sketch.kind? = some .use := by
    cases mark with
    | assignment name => exact (kind?_bindData names _ [] []).trans (kind?_mark (.use name) none [])
    | _ => cases assignment
  have length : children.length = (mark.target ++ Figure.sketches operands).length :=
    length_mapDataAll _ _
  have checked := @checkNode_eq isRoot _ _ kind target
  rw [length] at checked
  exact checked

theorem check_sketches {figures : List Figure} (fit : Figure.AllFit figures) :
    checkAll none (Sketch.mapDataAll (bindData names) (Figure.sketches figures)) = .ok () := by
  rw [checkAll_eq_forM, walkAll_mapDataAll, Answer.forM_eq_ok]
  intro part member
  rcases List.mem_map.mp member with ⟨own, own_mem, rfl⟩
  rcases exists_figures own own_mem with ⟨⟨mark, id, operands⟩, rfl, fits⟩
  rw [checkNode_sketch]
  split
  · rename_i expected fixed
    rw [if_pos]
    have counted := arity_mark mark operands.length expected (fits fit).1 fixed
    rw [← counted, Figure.sketch, List.length_append, length_sketches]
  · rfl

/-- A block of the sketches of figures passes the checks. -/
theorem check_block {figures : List Figure} (fit : Figure.AllFit figures) :
    check none true ((Sketch.block (Figure.sketches figures)).mapData (bindData names)) = .ok () :=
  Answer.bind_eq_ok.mpr ⟨(), rfl, check_sketches fit⟩

end RuleTree.Block
