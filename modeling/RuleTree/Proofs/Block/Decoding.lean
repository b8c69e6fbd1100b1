import RuleTree.Proofs.Block.Figure
import RuleTree.Proofs.Markup.Elements
import RuleTree.Proofs.Number.FloatText
import RuleTree.Proofs.Outcome

/-!
# Reading the element of a figure

Where the figures fit, reading their elements gives their sketches (`Block.single_element`,
`Block.chains_chained`).
-/

namespace RuleTree.Block

/-! ## Fields -/

/-- None of the elements is a field. -/
def Fieldless (elements : List Element) : Prop := ∀ element ∈ elements, element.name ≠ "field"

theorem field?_cons (other value name : String) (rest : List Element) :
    field? (fieldElement other value :: rest) name =
      if other = name then some value else field? rest name := by
  by_cases same : other = name
  · simp [field?, fieldElement, Element.attribute?, same]
  · simp [field?, fieldElement, Element.attribute?, same]

theorem field?_fieldless {elements : List Element} (fieldless : Fieldless elements)
    (name : String) : field? elements name = none := by
  unfold field?
  rw [Option.map_eq_none_iff, List.find?_eq_none]
  intro element member
  simp [fieldless element member]

/-- The data of a block whose type is that of operators. -/
theorem data_operator {blockType : String} (operator :
    blockType ∈ [mathArithmetic, mathModulo, mathSingle, logicCompare, logicOperation, logicNegate])
    (children : List Element) :
    data blockType children = operatorData blockType (field? children "OP") := by
  simp only [List.mem_cons, List.not_mem_nil, or_false] at operator
  rcases operator with rfl | rfl | rfl | rfl | rfl | rfl
  all_goals
    unfold data
    rw [if_neg (by decide), if_neg (by decide), if_neg (by decide), if_neg (by decide),
      if_neg (by decide), if_neg (by decide), if_neg (by decide), if_neg (by decide),
      if_pos (by decide)]

theorem operatorData_binary (op : BinaryOp) :
    operatorData (ofBinary op).blockType (ofBinary op).code =
      .ok (Sketch.dataOf .binary [("operator", .str op.symbol)]) := by
  unfold operatorData
  rw [show (⟨(ofBinary op).blockType, (ofBinary op).code⟩ : OperatorBlock) = ofBinary op from rfl,
    toBinary?_ofBinary]

theorem operatorData_unary (op : UnaryOp) :
    operatorData (ofUnary op).blockType (ofUnary op).code =
      .ok (Sketch.dataOf .unary [("operator", .str op.symbol)]) := by
  unfold operatorData
  rw [show (⟨(ofUnary op).blockType, (ofUnary op).code⟩ : OperatorBlock) = ofUnary op from rfl,
    toBinary?_ofUnary, toUnary?_ofUnary]

theorem field?_code {code : Option String} {rest : List Element} (fieldless : Fieldless rest) :
    field? ((code.map (fieldElement "OP")).toList ++ rest) "OP" = code := by
  cases code with
  | none => exact field?_fieldless fieldless "OP"
  | some code =>
      show field? (fieldElement "OP" code :: rest) "OP" = some code
      rw [field?_cons, if_pos rfl]

theorem numberData_integer (n : Int64) :
    numberData mathNumber (Digits.writeInt n.toInt) = .ok (Mark.integer n).data := by
  have plain : (Digits.writeInt n.toInt).any (fun c => c = '.' || c = 'e' || c = 'E') = false := by
    rw [List.any_eq_false]
    intro c member
    rcases Digits.mem_writeInt member with digit | rfl
    · intro mark
      simp only [Bool.or_eq_true, decide_eq_true_eq] at mark
      rcases mark with (rfl | rfl) | rfl <;> cases digit
    · decide
  unfold numberData
  rw [plain, readInt64?_write]
  rfl

theorem numberData_float {x : Float} (finite : Binary64.isFinite x = true) :
    numberData mathNumber (floatText x).toList = .ok (Mark.float x).data := by
  have read : FloatReader.read? (floatText x).toList = some x := by
    rw [floatText, String.toList_ofList, FloatReader.read?_write FloatStyle.message finite]
  have marked := FloatStyle.marked_write FloatStyle.message finite
  have pointed : (floatText x).toList.any (fun c => c = '.' || c = 'e' || c = 'E') = true := by
    rcases marked.mark with ⟨c, member, mark⟩
    rw [List.any_eq_true]
    refine ⟨c, by simpa [floatText] using member, ?_⟩
    rcases mark with rfl | rfl <;> rfl
  unfold numberData
  rw [if_pos pointed, read]
  rfl

/-- The data of a block are read off its fields. -/
theorem data_mark {mark : Mark} (readable : mark.Readable) {rest : List Element}
    (fieldless : Fieldless rest) :
    data mark.block.blockType (mark.fields ++ rest) = .ok mark.data := by
  cases mark with
  | integer n =>
      have trimmed := Text.trim_solid (Digits.solid_writeInt n.toInt)
      simp [data, Mark.block, Mark.fields, trimmedField, field, field?_cons, trimmed,
        numberData_integer]
  | float x =>
      have trimmed := Text.trim_solid (FloatStyle.marked_write FloatStyle.message readable).solid
      have number := numberData_float readable
      simp only [floatText, String.toList_ofList] at number
      simp [data, Mark.block, Mark.fields, trimmedField, field, field?_cons, floatText, trimmed,
        number]
  | text s =>
      simp [data, Mark.block, Mark.fields, field, field?_cons, Mark.data, text, mathNumber]
  | boolean b =>
      cases b <;>
        simp [data, Mark.block, Mark.fields, field, field?_cons, Mark.data, logicBoolean, text,
          mathNumber]
  | date d =>
      have trimmed := Text.trim_solid d.solid_write
      simp [data, Mark.block, Mark.fields, field, field?_cons, Mark.data, date, logicBoolean, text,
        mathNumber, trimmedField, Date.text, trimmed, Date.read?_write, valid]
  | reference r =>
      have trimmed := Text.trim_solid (Digits.solid_writeInt r.id.toInt)
      simp [data, Mark.block, Mark.fields, field, field?_cons, Mark.data, date, logicBoolean, text,
        mathNumber, reference, trimmedField, trimmed, readInt64?_write, valid]
  | use name =>
      simp [data, Mark.block, Mark.fields, field, field?_cons, Mark.data, date, logicBoolean, text,
        mathNumber, reference, variablesGet]
  | assignment name =>
      simp [data, Mark.block, Mark.data, date, logicBoolean, text, mathNumber, reference,
        variablesGet, variablesSet]
  | binary op =>
      have code : field? ((Mark.binary op).fields ++ rest) "OP" = (ofBinary op).code :=
        field?_code fieldless
      rw [data_operator (by cases op <;> decide), code]
      exact operatorData_binary op
  | unary op =>
      have code : field? ((Mark.unary op).fields ++ rest) "OP" = (ofUnary op).code :=
        field?_code fieldless
      rw [data_operator (by cases op <;> decide), code]
      exact operatorData_unary op
  | call title =>
      simp [data, Mark.block, Mark.fields, field, field?_cons, Mark.data, date, logicBoolean, text,
        mathNumber, reference, variablesGet, variablesSet, function]

/-! ## Slots -/

/-- What one element holds, if it is a slot. -/
def held (name : String) (children : List Element) : Except StructuralError (List Sketch) :=
  if name = "value" then
    ((firstSingle "block" children).or (firstSingle "shadow" children)).getD (.ok [])
  else if name = "statement" then
    ((firstChain "block" children).or (firstChain "shadow" children)).getD (.ok [])
  else .ok []

theorem inSlots_cons (element : Element) (rest : List Element) :
    inSlots (element :: rest) = held element.name element.children >>= fun here =>
      inSlots rest >>= fun others => .ok (here ++ others) := by
  rcases element with ⟨name, attributes, text, children⟩
  rw [inSlots]
  unfold held
  by_cases value : name = "value"
  · simp only [value, if_true]
  · by_cases statement : name = "statement"
    · subst statement
      rfl
    · simp only [value, statement, if_false]

/-! ## Searching

What is searched for among elements is read when it is found. -/

/-- The element that fills a slot: the first block or, if there is none, the first shadow. -/
def inner? (elements : List Element) : Option Element :=
  (elements.find? fun element => element.name = "block").or
    (elements.find? fun element => element.name = "shadow")

theorem firstSingle_eq (name : String) (elements : List Element) : firstSingle name elements =
    (elements.find? fun element => element.name = name).map fun element =>
      (single element).map ([·]) := by
  induction elements with
  | nil => rfl
  | cons element rest ih => by_cases same : element.name = name <;> simp [firstSingle, same, ih]

theorem firstChain_eq (name : String) (elements : List Element) : firstChain name elements =
    (elements.find? fun element => element.name = name).map chain := by
  induction elements with
  | nil => rfl
  | cons element rest ih => by_cases same : element.name = name <;> simp [firstChain, same, ih]

theorem next_eq (elements : List Element) : next elements =
    ((elements.find? fun element => element.name = "next").bind fun wrapper =>
      firstChain "block" wrapper.children).getD (.ok []) := by
  induction elements with
  | nil => rfl
  | cons element rest ih =>
      rcases element with ⟨name, attributes, text, children⟩
      by_cases same : name = "next" <;> simp [next, same, ih]

theorem single_eq (element : Element) :
    single element = node element (inSlots element.children) := by
  rcases element with ⟨name, attributes, text, children⟩
  rfl

theorem chain_eq (element : Element) : chain element = (do
    let first ← node element (inSlots element.children)
    let others ← next element.children
    .ok (first :: others)) := by
  rcases element with ⟨name, attributes, text, children⟩
  rfl

theorem held_value (elements : List Element) : held "value" elements =
    ((inner? elements).map fun element => (single element).map ([·])).getD (.ok []) := by
  rw [held, if_pos rfl, firstSingle_eq, firstSingle_eq, ← Option.map_or]
  rfl

theorem held_statement (elements : List Element) : held "statement" elements =
    ((inner? elements).map chain).getD (.ok []) := by
  rw [held, if_neg (by decide), if_pos rfl, firstChain_eq, firstChain_eq, ← Option.map_or]
  rfl

/-! ## The parts of a figure -/

theorem inSlots_append {first second : List Element} {here others : List Sketch}
    (left : inSlots first = .ok here) (right : inSlots second = .ok others) :
    inSlots (first ++ second) = .ok (here ++ others) := by
  induction first generalizing here with
  | nil =>
      cases left
      exact right
  | cons element rest ih =>
      rw [inSlots_cons] at left
      rcases Answer.bind_eq_ok.mp left with ⟨own, own_eq, left⟩
      rcases Answer.bind_eq_ok.mp left with ⟨more, more_eq, same⟩
      cases same
      rw [List.cons_append, inSlots_cons, own_eq]
      simp [ih more_eq]

/-- Elements that are no slots hold nothing. -/
theorem inSlots_others {elements : List Element}
    (others : ∀ element ∈ elements, element.name ≠ "value" ∧ element.name ≠ "statement") :
    inSlots elements = .ok [] := by
  induction elements with
  | nil => rfl
  | cons element rest ih =>
      rcases others element (by simp) with ⟨value, statement⟩
      have nothing : held element.name element.children = .ok [] := by
        simp [held, value, statement]
      rw [inSlots_cons, nothing, ih fun other member => others other (by simp [member])]
      rfl

theorem name_fields {mark : Mark} {element : Element} (member : element ∈ mark.fields) :
    element.name = "field" := by
  cases mark with
  | binary op | unary op =>
      simp only [Mark.fields, Option.mem_toList, Option.map_eq_some_iff] at member
      rcases member with ⟨code, _, rfl⟩
      rfl
  | reference r =>
      simp only [Mark.fields, List.mem_cons, List.not_mem_nil, or_false] at member
      rcases member with rfl | rfl <;> rfl
  | _ =>
      rw [List.mem_singleton.mp member]
      rfl

theorem name_slotted {figures : List Figure} {slots : List String} {element : Element}
    (member : element ∈ Figure.slotted figures slots) :
    element.name = "value" ∨ element.name = "statement" := by
  induction figures generalizing slots with
  | nil => cases member
  | cons figure rest ih =>
      rcases figure with ⟨mark, id, operands⟩
      cases slots with
      | nil => cases member
      | cons slot slots =>
          rcases List.mem_cons.mp member with rfl | later
          · cases mark with
            | assignment name => exact .inr rfl
            | _ => exact .inl rfl
          · exact ih later

theorem next_append {first second : List Element}
    (others : ∀ element ∈ first, element.name ≠ "next") : next (first ++ second) = next second := by
  induction first with
  | nil => rfl
  | cons element rest ih =>
      have differ := others element (by simp)
      rcases element with ⟨name, attributes, text, children⟩
      rw [List.cons_append, next, if_neg differ]
      exact ih fun other member => others other (by simp [member])

/-! ## Blocks -/

/-- The parts of the block of a figure. -/
def Figure.parts (figure : Figure) : List Element :=
  figure.mark.fields ++ Figure.slotted figure.operands (figure.mark.slots figure.operands.length)

theorem name_parts {figure : Figure} {element : Element} (member : element ∈ figure.parts) :
    element.name ≠ "next" := by
  rcases List.mem_append.mp member with field | slot
  · rw [name_fields field]
    decide
  · rcases name_slotted slot with same | same <;> rw [same] <;> decide

theorem target_of_ne {mark : Mark} (other : mark.block.blockType ≠ variablesSet) :
    mark.target = [] := by
  cases mark with
  | assignment name => exact absurd rfl other
  | _ => rfl

theorem field_assignment {mark : Mark} (same : mark.block.blockType = variablesSet)
    (rest : List Element) : ∃ name, mark = .assignment name ∧
      field (mark.fields ++ rest) mark.block.blockType "VAR" = .ok name := by
  cases mark with
  | assignment name => exact ⟨name, rfl, by simp [Mark.fields, field, field?_cons]⟩
  | binary op | unary op => cases op <;> exact absurd same (by decide)
  | _ =>
      simp [Mark.block, variablesSet, mathNumber, text, logicBoolean, date, reference, variablesGet,
        function] at same

/-- The node of the block of a figure, whatever else hangs below the block. -/
theorem node_figure {figure : Figure} {rest : List Element} {text : String}
    (readable : figure.mark.Readable) (fieldless : Fieldless rest) :
    node ⟨"block", Figure.attributes figure.mark figure.id, text, figure.parts ++ rest⟩
      (.ok (Figure.sketches figure.operands)) = .ok figure.sketch := by
  rcases figure with ⟨mark, id, operands⟩
  have below : Fieldless (Figure.slotted operands (mark.slots operands.length) ++ rest) := by
    intro element member
    rcases List.mem_append.mp member with slot | other
    · rcases name_slotted slot with same | same <;> rw [same] <;> decide
    · exact fieldless element other
  have known := data_mark readable below
  have type : (Figure.attributes mark id).find? (·.1 = "type") =
      some ("type", mark.block.blockType) := by
    simp [Figure.attributes]
  have number : ((Figure.attributes mark id).find? (·.1 = "id")).map Prod.snd = id := by
    cases id <;> simp [Figure.attributes]
  unfold node
  simp only [Element.attribute?, type, number, Option.map_some, Figure.parts, List.append_assoc,
    known, Answer.ok_bind]
  by_cases same : mark.block.blockType = variablesSet
  · rcases field_assignment same (Figure.slotted operands (mark.slots operands.length) ++ rest) with
      ⟨name, rfl, named⟩
    rw [if_pos same, named]
    cases id <;> rfl
  · rw [if_neg same]
    cases id <;> simp [Figure.sketch, Figure.withId, target_of_ne same]

/-! ## Figures -/

theorem element_eq (figure : Figure) : figure.element =
    ⟨"block", Figure.attributes figure.mark figure.id, "", figure.parts⟩ := by
  rcases figure with ⟨mark, id, operands⟩
  rfl

theorem single_of_parts {figure : Figure} (readable : figure.mark.Readable)
    (inside : inSlots figure.parts = .ok (Figure.sketches figure.operands)) :
    single figure.element = .ok figure.sketch := by
  have nothing : Fieldless ([] : List Element) := fun _ impossible => by cases impossible
  have node_eq := @node_figure figure [] "" readable nothing
  rw [List.append_nil] at node_eq
  rw [element_eq, single, inside, node_eq]

/-- A block with others below it is read as a node and the nodes of the others. -/
theorem chain_of_parts {figure : Figure} (readable : figure.mark.Readable)
    (inside : inSlots figure.parts = .ok (Figure.sketches figure.operands)) {below : List Element}
    {others : List Sketch} (slotless : inSlots below = .ok []) (fieldless : Fieldless below)
    (hanging : next below = .ok others) {text : String} :
    chain ⟨"block", Figure.attributes figure.mark figure.id, text, figure.parts ++ below⟩ =
      .ok (figure.sketch :: others) := by
  have whole := inSlots_append inside slotless
  rw [List.append_nil] at whole
  rw [chain, whole, node_figure readable fieldless, next_append fun _ => name_parts, hanging]
  rfl

theorem held_single {element : Element} {sketch : Sketch} (named : element.name = "block")
    (read : single element = .ok sketch) : held "value" [element] = .ok [sketch] := by
  rw [held_value]
  simp only [inner?, named, List.find?_singleton, decide_true, if_true, Option.some_or,
    Option.map_some, Option.getD_some, read]
  rfl

theorem held_chain {element : Element} {sketches : List Sketch} (named : element.name = "block")
    (read : chain element = .ok sketches) : held "statement" [element] = .ok sketches := by
  rw [held_statement]
  simp only [inner?, named, List.find?_singleton, decide_true, if_true, Option.some_or,
    Option.map_some, Option.getD_some, read]

theorem chain_element {figure : Figure} (readable : figure.mark.Readable)
    (inside : inSlots figure.parts = .ok (Figure.sketches figure.operands)) :
    chain figure.element = .ok [figure.sketch] := by
  have slotless : inSlots [] = .ok [] := rfl
  have read := @chain_of_parts figure readable inside [] [] slotless
    (fun _ impossible => by cases impossible) rfl ""
  rw [List.append_nil] at read
  rw [element_eq, read]

theorem held_figure {figure : Figure} (readable : figure.mark.Readable)
    (inside : inSlots figure.parts = .ok (Figure.sketches figure.operands)) :
    held figure.mark.wrapper [figure.element] = .ok [figure.sketch] := by
  have named : figure.element.name = "block" := by rw [element_eq]
  have alone := held_single named (single_of_parts readable inside)
  have chained := chain_element readable inside
  rcases figure with ⟨mark, id, operands⟩
  cases mark with
  | assignment name => exact held_chain named chained
  | _ => exact alone

mutual

theorem inSlots_parts : ∀ {figure : Figure}, figure.Fits →
    inSlots figure.parts = .ok (Figure.sketches figure.operands)
  | ⟨mark, id, operands⟩, ⟨counted, _, below⟩ => by
      have fields : inSlots mark.fields = .ok [] := inSlots_others fun element member => by
        rw [name_fields member]
        decide
      exact inSlots_append fields (inSlots_slotted below counted)

theorem inSlots_slotted : ∀ {figures : List Figure} {slots : List String}, Figure.AllFit figures →
    slots.length = figures.length →
      inSlots (Figure.slotted figures slots) = .ok (Figure.sketches figures)
  | [], _, _, _ => rfl
  | ⟨mark, id, operands⟩ :: rest, [], _, counted => by cases counted
  | ⟨mark, id, operands⟩ :: rest, slot :: slots, ⟨⟨fits, readable, operands_fit⟩, below⟩,
      counted => by
      have inside := @inSlots_parts ⟨mark, id, operands⟩ ⟨fits, readable, operands_fit⟩
      have others := inSlots_slotted below (Nat.succ.inj counted)
      have here := held_figure readable inside
      rw [Figure.slotted, inSlots_cons, here, others]
      rfl

end

/-! ## Documents -/

theorem chain_chained {figure : Figure} {rest : List Figure}
    (fit : Figure.AllFit (figure :: rest)) :
    chain (chained figure.element (Figure.chained rest)) =
      .ok (Figure.sketches (figure :: rest)) := by
  induction rest generalizing figure with
  | nil => exact chain_element fit.1.readable (inSlots_parts fit.1)
  | cons second others ih =>
      have hanging := ih fit.2
      have named : (chained second.element (Figure.chained others)).name = "block" := by
        rw [element_eq]
        unfold chained
        split <;> rfl
      have first : firstChain "block" (Figure.chained (second :: others)) =
          some (.ok (Figure.sketches (second :: others))) := by
        rw [Figure.chained, firstChain, if_pos named, hanging]
      have split : chained figure.element (Figure.chained (second :: others)) =
          ⟨"block", Figure.attributes figure.mark figure.id, "",
            figure.parts ++ [⟨"next", [], "", Figure.chained (second :: others)⟩]⟩ := by
        rw [element_eq]
        rfl
      rw [split]
      apply chain_of_parts fit.1.readable (inSlots_parts fit.1)
      · exact inSlots_others fun element member => by
          rw [List.mem_singleton.mp member]
          simp
      · intro element member
        rw [List.mem_singleton.mp member]
        simp
      · rw [next, if_pos rfl, first]
        rfl

theorem chains_chained {figures : List Figure} (fit : Figure.AllFit figures) :
    chains (Figure.chained figures) = .ok (Figure.sketches figures) := by
  cases figures with
  | nil => rfl
  | cons figure rest =>
      have named : (chained figure.element (Figure.chained rest)).name = "block" := by
        rw [element_eq]
        unfold chained
        split <;> rfl
      rw [Figure.chained, chains, if_pos named, chain_chained fit]
      simp [chains]

theorem allWellNamed_append {first second : List Element} (left : Element.AllWellNamed first)
    (right : Element.AllWellNamed second) : Element.AllWellNamed (first ++ second) := by
  induction first with
  | nil => exact right
  | cons element rest ih => exact ⟨left.1, ih left.2⟩

theorem word_name : Markup.IsWord "name".toList := by decide

theorem wellNamed_field (name value : String) : (fieldElement name value).WellNamed := by
  refine ⟨by decide, ?_, by simp, trivial⟩
  intro entry member
  rw [List.mem_singleton.mp member]
  exact word_name

theorem wellNamed_fields (mark : Mark) : Element.AllWellNamed mark.fields := by
  cases mark with
  | binary op => cases op <;> first | exact ⟨wellNamed_field _ _, trivial⟩ | trivial
  | unary op => cases op <;> first | exact ⟨wellNamed_field _ _, trivial⟩ | trivial
  | reference r => exact ⟨wellNamed_field _ _, wellNamed_field _ _, trivial⟩
  | _ => exact ⟨wellNamed_field _ _, trivial⟩

theorem word_attributes {mark : Mark} {id : Option String} :
    ∀ entry ∈ Figure.attributes mark id, Markup.IsWord entry.1.toList := by
  have type : Markup.IsWord "type".toList := by decide
  have number : Markup.IsWord "id".toList := by decide
  intro entry member
  rcases List.mem_cons.mp member with rfl | later
  · exact type
  · simp only [Option.mem_toList, Option.map_eq_some_iff] at later
    rcases later with ⟨text, _, rfl⟩
    exact number

theorem word_wrapper (mark : Mark) : Markup.IsWord mark.wrapper.toList := by
  cases mark with
  | assignment name => exact (by decide : Markup.IsWord "statement".toList)
  | _ => exact (by decide : Markup.IsWord "value".toList)

theorem nodup_attributes (mark : Mark) (id : Option String) :
    ((Figure.attributes mark id).map Prod.fst).Nodup := by
  cases id <;> simp [Figure.attributes]

mutual

theorem wellNamed_element : ∀ figure : Figure, figure.element.WellNamed
  | ⟨mark, id, operands⟩ => ⟨by decide, word_attributes, nodup_attributes mark id,
      allWellNamed_append (wellNamed_fields mark) (wellNamed_slotted operands _)⟩

theorem wellNamed_slotted : ∀ (figures : List Figure) (slots : List String),
    Element.AllWellNamed (Figure.slotted figures slots)
  | [], _ => trivial
  | ⟨mark, id, operands⟩ :: rest, [] => trivial
  | ⟨mark, id, operands⟩ :: rest, slot :: slots => by
      refine ⟨⟨word_wrapper mark, ?_, by simp, wellNamed_element ⟨mark, id, operands⟩, trivial⟩,
        wellNamed_slotted rest slots⟩
      intro entry member
      rw [List.mem_singleton.mp member]
      exact word_name

end

theorem wellNamed_chained (figures : List Figure) :
    Element.AllWellNamed (Figure.chained figures) := by
  induction figures with
  | nil => trivial
  | cons figure rest ih =>
      refine ⟨?_, trivial⟩
      have own := wellNamed_element figure
      unfold chained
      split
      · exact own
      · rcases element_eq : figure.element with ⟨name, attributes, text, children⟩
        rw [element_eq] at own
        rcases own with ⟨word, words, distinct, below⟩
        exact ⟨word, words, distinct, allWellNamed_append below
          ⟨⟨by decide, by simp, by simp, ih⟩, trivial⟩⟩

/-- An element that is written as a document is read again. -/
theorem read_write {root : Element} (wellNamed : root.WellNamed) :
    Block.read (String.ofList root.write) = statements root := by
  unfold Block.read
  rw [String.toList_ofList, Element.read_write wellNamed]
  rfl

/-- The document of figures that fit is read as their sketches. -/
theorem read_document {figures : List Figure} (fit : Figure.AllFit figures) :
    Block.read (String.ofList (Figure.document figures).write) =
      .ok (Figure.sketches figures) := by
  have wellNamed : (Figure.document figures).WellNamed :=
    ⟨by decide, by simp, by simp, wellNamed_chained figures⟩
  have named : (Figure.document figures).name = "xml" := rfl
  rw [read_write wellNamed, statements, if_pos named]
  exact chains_chained fit

end RuleTree.Block
