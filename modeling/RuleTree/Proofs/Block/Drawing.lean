import RuleTree.Proofs.Block.Figure
import RuleTree.Proofs.Reading.Agreement

/-!
# What the writer writes

The writer gives the element of a figure exactly when the figure draws the stored tree
(`Block.draws_of_blockElement`, `Block.yields_blockElement`).  Only what becomes a block is drawn:
definitions are left out, and so is what hangs below a constant, a variable or the variable of an
assignment.
-/

namespace RuleTree.Block

open Step Records

variable {records : Records} {ids : Bool}

/-! ## Figures of stored trees -/

/-- A mark says what an object says, with the name of a variable in the place of its definition. -/
inductive Marks (records : Records) : Content → Mark → Prop where
  | integer (n : Int64) : Marks records (.integer n) (.integer n)
  | float {x : Float} : Binary64.isFinite x = true → Marks records (.float x) (.float x)
  | text (s : String) : Marks records (.text s) (.text s)
  | boolean (b : Bool) : Marks records (.boolean b) (.boolean b)
  | date (d : Date) : Marks records (.date d) (.date d)
  | reference (r : Reference) : Marks records (.reference r) (.reference r)
  | use {definition : ObjectId} {name : String} {source : Option Source} :
      records.objects.get? ⟨.definition, definition⟩ = some (.definition name source) →
        Marks records (.use definition) (.use name)
  | assignment (name : String) : Marks records .assignment (.assignment name)
  | binary {symbol : String} {op : BinaryOp} :
      BinaryOp.ofSymbol? symbol = some op → Marks records (.binary symbol) (.binary op)
  | unary {symbol : String} {op : UnaryOp} :
      UnaryOp.ofSymbol? symbol = some op → Marks records (.unary symbol) (.unary op)
  | call (title : String) : Marks records (.call title) (.call title)

/-- Those among some nodes that are no definitions. -/
def visible (records : Records) (ids : List NodeId) : List Node :=
  (ids.filterMap records.nodes.get?).filter fun child =>
    child.content.map ContentRef.kind ≠ some .definition

/-- The children that are no definitions. -/
def shown (records : Records) (id : NodeId) : List Node :=
  visible records (records.orderedChildren id)

/-- The node is the use of a variable with a name. -/
def UsesName (records : Records) (name : String) (node : Node) : Prop :=
  ∃ ref definition source, node.content = some ref ∧
    records.objects.get? ref = some (.use definition) ∧
      records.objects.get? ⟨.definition, definition⟩ = some (.definition name source)

/-- Those among the children that are written, as a mark has it: the first child of an assignment
gives the name in the mark, and only the others are written. -/
def Operands (records : Records) : Mark → List Node → List Node → Prop
  | .assignment name, children, others =>
      ∃ target, children = target :: others ∧ UsesName records name target
  | .binary _, children, others | .unary _, children, others | .call _, children, others =>
      children = others
  | _, _, others => others = []

mutual

/-- The figure draws the tree below a node. -/
def Draws (records : Records) (ids : Bool) : Figure → Node → Prop
  | ⟨mark, id, operands⟩, node =>
      id = (if ids then some node.id.text else none) ∧
        (∃ ref content, node.content = some ref ∧ records.objects.get? ref = some content ∧
          Marks records content mark) ∧
          ∃ others, Operands records mark (shown records node.id) others ∧
            DrawsAll records ids operands others

def DrawsAll (records : Records) (ids : Bool) : List Figure → List Node → Prop
  | [], nodes => nodes = []
  | figure :: rest, nodes =>
      ∃ node others, nodes = node :: others ∧ Draws records ids figure node ∧
        DrawsAll records ids rest others

end

/-! ## Reading node by node -/

theorem yields_children (linked : Linked records) {node : Node}
    (stored : records.nodes.get? node.id = some node) :
    Yields (visibleChildren records .direct node) (shown records node.id) :=
  Yields.bind (Reading.children_direct_eq linked stored) (Yields.pure _)

theorem yields_content {node : Node} {ref : ContentRef} {content : Content}
    (wraps : node.content = some ref) (stored : records.objects.get? ref = some content) :
    Yields (Reading.content records .direct node) (some content) :=
  fun reading => ⟨_, Reading.content_direct_eq wraps stored reading⟩

theorem content_eq_ok {node : Node} {content : Content} {reading after : Reading}
    (done : Reading.content records .direct node reading = (.ok (some content), after)) :
    ∃ ref, node.content = some ref ∧ records.objects.get? ref = some content := by
  cases wraps : node.content with
  | none =>
      simp only [Reading.content, wraps] at done
      cases (pure_eq_ok.mp done).1
  | some ref =>
      simp only [Reading.content, wraps, map_eq_pure_bind] at done
      rcases bind_eq_ok.mp done with ⟨content', middle, fetched, done⟩
      rcases Reading.fetch_eq_ok.mp fetched with ⟨found, _⟩
      cases (pure_eq_ok.mp done).1
      exact ⟨ref, rfl, object_eq_ok.mp found⟩

theorem yields_variableName {definition : ObjectId} {name : String} {source : Option Source}
    (stored : records.objects.get? ⟨.definition, definition⟩ = some (.definition name source)) :
    Yields (variableName records .direct definition) name := by
  have fetched : Yields (Reading.object records .direct ⟨.definition, definition⟩)
      (.definition name source) :=
    fun _ => ⟨_, Reading.fetch_eq_ok.mpr ⟨object_eq_ok.mpr stored, rfl⟩⟩
  exact fetched.bind (Yields.pure name)

theorem variableName_eq_ok {definition : ObjectId} {name : String} {reading after : Reading}
    (done : variableName records .direct definition reading = (.ok name, after)) :
    ∃ source,
      records.objects.get? ⟨.definition, definition⟩ = some (.definition name source) := by
  rcases bind_eq_ok.mp done with ⟨content, middle, fetched, done⟩
  have found := object_eq_ok.mp (Reading.fetch_eq_ok.mp fetched).1
  cases content with
  | definition name' source =>
      cases (pure_eq_ok.mp done).1
      exact ⟨source, found⟩
  | _ => exact absurd done throw_ne_ok

theorem yields_targetName {node target : Node} {name : String}
    (names : UsesName records name target) :
    Yields (targetName records .direct node target) name := by
  rcases names with ⟨ref, definition, source, wraps, use, stored⟩
  exact Yields.bind (yields_content wraps use) (yields_variableName stored)

theorem targetName_eq_ok {node target : Node} {name : String} {reading after : Reading}
    (done : targetName records .direct node target reading = (.ok name, after)) :
    UsesName records name target := by
  rcases bind_eq_ok.mp done with ⟨content, middle, fetched, done⟩
  cases content with
  | none => exact absurd done throw_ne_ok
  | some content =>
      cases content with
      | use definition =>
          rcases content_eq_ok fetched with ⟨ref, wraps, use⟩
          rcases variableName_eq_ok done with ⟨source, stored⟩
          exact ⟨ref, definition, source, wraps, use, stored⟩
      | _ => exact absurd done throw_ne_ok

/-! ## Slots -/

theorem length_drawsAll {figures : List Figure} {nodes : List Node}
    (draws : DrawsAll records ids figures nodes) : figures.length = nodes.length := by
  induction figures generalizing nodes with
  | nil =>
      cases draws
      rfl
  | cons figure rest ih =>
      rcases draws with ⟨node, others, rfl, _, draws⟩
      simp [ih draws]

theorem wrapper_eq {content : Content} {mark : Mark} (marks : Marks records content mark) :
    (if (some content).map Content.slot = some .statement then "statement" else "value") =
      mark.wrapper := by
  cases marks <;> rfl

theorem Draws.yields_content {figure : Figure} {node : Node}
    (draws : Draws records ids figure node) :
    ∃ content, Yields (Reading.content records .direct node) (some content) ∧
      Marks records content figure.mark := by
  rcases figure with ⟨mark, id, operands⟩
  rcases draws with ⟨_, ⟨ref, content, wraps, stored, marks⟩, _⟩
  exact ⟨content, Block.yields_content wraps stored, marks⟩

/-- Whatever the writer gives for a node draws it. -/
def Faithful (records : Records) (ids : Bool) (write : Node → ReadM Element) (node : Node) :
    Prop :=
  ∀ element reading after, write node reading = (.ok element, after) →
    ∃ figure, Draws records ids figure node ∧ figure.Fits ∧ figure.element = element

theorem draws_of_slotElements {write : Node → ReadM Element} {children : List Node}
    {slots : List String} {elements : List Element} {reading after : Reading}
    (done : slotElements records .direct write (children.zip slots) reading =
      (.ok elements, after))
    (each : ∀ child ∈ children, Faithful records ids write child)
    (count : slots.length = children.length) :
    ∃ figures, DrawsAll records ids figures children ∧ Figure.AllFit figures ∧
      Figure.slotted figures slots = elements := by
  induction children generalizing slots elements reading after with
  | nil =>
      cases (pure_eq_ok.mp done).1
      exact ⟨[], rfl, trivial, rfl⟩
  | cons child rest ih =>
      cases slots with
      | nil => cases count
      | cons slot slots =>
          rcases bind_eq_ok.mp done with ⟨content, first, known, done⟩
          rcases bind_eq_ok.mp done with ⟨element, second, written, done⟩
          rcases bind_eq_ok.mp done with ⟨others, third, more, done⟩
          cases (pure_eq_ok.mp done).1
          rcases each child (by simp) element first second written with
            ⟨figure, draws, fits, rfl⟩
          have later : slotElements records .direct write (rest.zip slots) second =
              (.ok others, third) := more
          rcases ih later (fun other member => each other (by simp [member]))
            (Nat.succ.inj count) with ⟨figures, all, fit, rfl⟩
          refine ⟨figure :: figures, ⟨child, rest, rfl, draws, all⟩, ⟨fits, fit⟩, ?_⟩
          rcases draws.yields_content with ⟨content', yields, marks⟩
          rw [← yields.eq known, wrapper_eq marks]
          rcases figure with ⟨mark, id, operands⟩
          rfl

theorem yields_slotElements {write : Node → ReadM Element} {figures : List Figure}
    {children : List Node} {slots : List String} (draws : DrawsAll records ids figures children)
    (count : slots.length = figures.length)
    (each : ∀ figure child, figure ∈ figures → child ∈ children → Draws records ids figure child →
      Yields (write child) figure.element) :
    Yields (slotElements records .direct write (children.zip slots))
      (Figure.slotted figures slots) := by
  induction figures generalizing children slots with
  | nil =>
      rw [draws]
      exact Yields.pure []
  | cons figure rest ih =>
      rcases draws with ⟨child, others, rfl, here, draws⟩
      cases slots with
      | nil => cases count
      | cons slot slots =>
          rcases here.yields_content with ⟨content, yields, marks⟩
          have written := each figure child (by simp) (by simp) here
          have more := ih draws (Nat.succ.inj count) fun figure' child' member member' =>
            each figure' child' (by simp [member]) (by simp [member'])
          have split : Figure.slotted (figure :: rest) (slot :: slots) =
              ⟨if (some content).map Content.slot = some .statement then "statement" else "value",
                [("name", slot)], "", [figure.element]⟩ :: Figure.slotted rest slots := by
            rw [wrapper_eq marks]
            rcases figure with ⟨mark, id, operands⟩
            rfl
          rw [split]
          exact yields.bind (written.bind (more.bind (Yields.pure _)))

theorem fillSlots_eq_ok {write : Node → ReadM Element} {node : Node} {content : Content}
    {children : List Node} {slots : List String} {elements : List Element}
    {reading after : Reading}
    (done : fillSlots records .direct write node content children slots reading =
      (.ok elements, after)) :
    slots.length = children.length ∧
      slotElements records .direct write (children.zip slots) reading = (.ok elements, after) := by
  cases beyond : slots[children.length]? with
  | some slot =>
      simp only [fillSlots, beyond] at done
      exact absurd done throw_ne_ok
  | none =>
      have most := List.getElem?_eq_none_iff.mp beyond
      simp only [fillSlots, beyond] at done
      by_cases least : slots.length < children.length
      · rw [if_pos least] at done
        exact absurd done throw_ne_ok
      · rw [if_neg least] at done
        exact ⟨by omega, done⟩

theorem fillSlots_eq {write : Node → ReadM Element} {node : Node} {content : Content}
    {children : List Node} {slots : List String} (count : slots.length = children.length) :
    fillSlots records .direct write node content children slots =
      slotElements records .direct write (children.zip slots) := by
  have beyond : slots[children.length]? = none := List.getElem?_eq_none_iff.mpr (by omega)
  have least : ¬slots.length < children.length := by omega
  simp only [fillSlots, beyond, least, if_false]

/-! ## Blocks -/

/-- What a figure adds to its mark to draw the tree below a node with these children. -/
structure Filled (records : Records) (ids : Bool) (mark : Mark) (children : List Node)
    (operands : List Figure) : Prop where
  drawn : ∃ others, Operands records mark children others ∧ DrawsAll records ids operands others
  counted : (mark.slots operands.length).length = operands.length
  fit : Figure.AllFit operands

theorem operatorBlock_eq_ok {block? : Option OperatorBlock} {symbol : String}
    {block : OperatorBlock} (known : operatorBlock block? symbol = .ok block) :
    block? = some block := by
  cases block? with
  | none => cases known
  | some block' =>
      cases known
      rfl

theorem filled_of_fillSlots {write : Node → ReadM Element} {node : Node} {content : Content}
    {mark : Mark} {children : List Node} {slots : List String} {elements : List Element}
    {reading after : Reading}
    (done : fillSlots records .direct write node content children slots reading =
      (.ok elements, after))
    (each : ∀ child ∈ children, Faithful records ids write child)
    (own : mark.slots children.length = slots) :
    ∃ operands, DrawsAll records ids operands children ∧
      (mark.slots operands.length).length = operands.length ∧ Figure.AllFit operands ∧
        Figure.slotted operands (mark.slots operands.length) = elements := by
  rcases fillSlots_eq_ok done with ⟨count, done⟩
  rcases draws_of_slotElements done each count with ⟨operands, draws, fit, slotted⟩
  have length := length_drawsAll draws
  refine ⟨operands, draws, ?_, fit, ?_⟩
  · rw [length, own, count]
  · rw [length, own, slotted]

theorem filled_of_partElements {write : Node → ReadM Element} {node : Node} {content : Content}
    {block : OperatorBlock} {children : List Node} {parts : List Element}
    {reading after : Reading}
    (done : partElements records .direct write node block children content reading =
      (.ok parts, after))
    (coded : ofContent content = .ok block)
    (each : ∀ child ∈ children, Faithful records ids write child) :
    ∃ mark operands, Marks records content mark ∧ mark.block = block ∧ mark.Readable ∧
      Filled records ids mark children operands ∧
        mark.fields ++ Figure.slotted operands (mark.slots operands.length) = parts := by
  have empty {mark : Mark} (none : mark.slots 0 = [])
      (alone : Operands records mark children []) : Filled records ids mark children [] :=
    ⟨⟨[], alone, rfl⟩, by simp [none], trivial⟩
  cases content with
  | integer n =>
      cases coded
      cases (pure_eq_ok.mp done).1
      exact ⟨.integer n, [], .integer n, rfl, trivial, empty rfl rfl, rfl⟩
  | float x =>
      cases coded
      simp only [partElements] at done
      by_cases finite : Binary64.isFinite x = true
      · rw [if_pos finite] at done
        cases (pure_eq_ok.mp done).1
        exact ⟨.float x, [], .float finite, rfl, finite, empty rfl rfl, rfl⟩
      · rw [if_neg finite] at done
        exact absurd done throw_ne_ok
  | text s =>
      cases coded
      cases (pure_eq_ok.mp done).1
      exact ⟨.text s, [], .text s, rfl, trivial, empty rfl rfl, rfl⟩
  | boolean b =>
      cases coded
      cases (pure_eq_ok.mp done).1
      exact ⟨.boolean b, [], .boolean b, rfl, trivial, empty rfl rfl, rfl⟩
  | date d =>
      cases coded
      cases (pure_eq_ok.mp done).1
      exact ⟨.date d, [], .date d, rfl, trivial, empty rfl rfl, rfl⟩
  | reference r =>
      cases coded
      cases (pure_eq_ok.mp done).1
      exact ⟨.reference r, [], .reference r, rfl, trivial, empty rfl rfl, rfl⟩
  | use definition =>
      cases coded
      rcases bind_eq_ok.mp done with ⟨name, middle, named, done⟩
      cases (pure_eq_ok.mp done).1
      rcases variableName_eq_ok named with ⟨source, defined⟩
      exact ⟨.use name, [], .use defined, rfl, trivial, empty rfl rfl, rfl⟩
  | assignment =>
      cases coded
      cases children with
      | nil => exact absurd done throw_ne_ok
      | cons target others =>
          rcases bind_eq_ok.mp done with ⟨name, first, named, done⟩
          rcases bind_eq_ok.mp done with ⟨elements, second, filled, done⟩
          cases (pure_eq_ok.mp done).1
          rcases @filled_of_fillSlots _ _ _ _ _ (.assignment name) _ _ _ _ _ filled
            (fun child member => each child (by simp [member])) rfl with
            ⟨operands, draws, counted, fit, rfl⟩
          exact ⟨.assignment name, operands, .assignment name, rfl, trivial,
            ⟨⟨others, ⟨target, rfl, targetName_eq_ok named⟩, draws⟩, counted, fit⟩, rfl⟩
  | binary symbol =>
      rcases Option.map_eq_some_iff.mp (operatorBlock_eq_ok coded) with ⟨op, known, rfl⟩
      rcases bind_eq_ok.mp done with ⟨elements, middle, filled, done⟩
      cases (pure_eq_ok.mp done).1
      rcases @filled_of_fillSlots _ _ _ _ _ (.binary op) _ _ _ _ _ filled each rfl with
        ⟨operands, draws, counted, fit, rfl⟩
      exact ⟨.binary op, operands, .binary known, rfl, trivial,
        ⟨⟨children, rfl, draws⟩, counted, fit⟩, rfl⟩
  | unary symbol =>
      rcases Option.map_eq_some_iff.mp (operatorBlock_eq_ok coded) with ⟨op, known, rfl⟩
      rcases bind_eq_ok.mp done with ⟨elements, middle, filled, done⟩
      cases (pure_eq_ok.mp done).1
      rcases @filled_of_fillSlots _ _ _ _ _ (.unary op) _ _ _ _ _ filled each rfl with
        ⟨operands, draws, counted, fit, rfl⟩
      exact ⟨.unary op, operands, .unary known, rfl, trivial,
        ⟨⟨children, rfl, draws⟩, counted, fit⟩, rfl⟩
  | call title =>
      cases coded
      rcases bind_eq_ok.mp done with ⟨elements, middle, filled, done⟩
      cases (pure_eq_ok.mp done).1
      rcases @filled_of_fillSlots _ _ _ _ _ (.call title) _ _ _ _ _ filled each rfl with
        ⟨operands, draws, counted, fit, rfl⟩
      exact ⟨.call title, operands, .call title, rfl, trivial,
        ⟨⟨children, rfl, draws⟩, counted, fit⟩, rfl⟩
  | definition name source => cases coded

theorem attributes_eq (mark : Mark) (node : Node) :
    Figure.attributes mark (if ids then some node.id.text else none) =
      ("type", mark.block.blockType) :: (if ids then [("id", node.id.text)] else []) := by
  cases ids <;> rfl

theorem stored_shown (linked : Linked records) {id : NodeId} {child : Node}
    (member : child ∈ shown records id) :
    records.nodes.get? child.id = some child ∧ child.id ∈ records.orderedChildren id := by
  rcases List.mem_filterMap.mp (List.mem_filter.mp member).1 with ⟨other, listed, found⟩
  cases linked.keyed found
  exact ⟨found, listed⟩

/-- Whatever block is written for a stored node is the element of a figure of its tree. -/
theorem draws_of_blockElement (linked : Linked records)
    {depth : Nat} {node : Node} (stored : records.nodes.get? node.id = some node) :
    Faithful records ids (blockElement records .direct ids depth) node := by
  induction depth generalizing node with
  | zero =>
      intro element reading after done
      exact absurd done throw_ne_ok
  | succ depth ih =>
      intro element reading after done
      rcases bind_eq_ok.mp done with ⟨content, first, known, done⟩
      cases content with
      | none => exact absurd done throw_ne_ok
      | some content =>
          rcases content_eq_ok known with ⟨ref, wraps, found⟩
          rcases bind_eq_ok.mp done with ⟨children, second, read, done⟩
          cases (yields_children linked stored).eq read
          cases coded : ofContent content with
          | error cause =>
              simp only [coded] at done
              exact absurd done throw_ne_ok
          | ok block =>
              simp only [coded] at done
              rcases bind_eq_ok.mp done with ⟨parts, third, written, done⟩
              cases (pure_eq_ok.mp done).1
              rcases filled_of_partElements written coded
                (fun child member => ih (stored_shown linked member).1) with
                ⟨mark, operands, marks, rfl, readable, filled, rfl⟩
              refine ⟨⟨mark, if ids then some node.id.text else none, operands⟩,
                ⟨rfl, ⟨ref, content, wraps, found, marks⟩, filled.drawn⟩,
                ⟨filled.counted, readable, filled.fit⟩, ?_⟩
              rw [Figure.element, attributes_eq]

/-! ## Figures that are drawn -/

theorem ofContent_mark {content : Content} {mark : Mark} (marks : Marks records content mark) :
    ofContent content = .ok mark.block := by
  cases marks with
  | binary known | unary known =>
      simp only [ofContent, known]
      rfl
  | _ => rfl

theorem yields_partElements {content : Content} {mark : Mark} (marks : Marks records content mark)
    {children others : List Node} (operands : Operands records mark children others)
    {figures : List Figure} (draws : DrawsAll records ids figures others)
    (counted : (mark.slots figures.length).length = figures.length)
    {node : Node} {write : Node → ReadM Element}
    (each : ∀ figure child, figure ∈ figures → child ∈ others → Draws records ids figure child →
      Yields (write child) figure.element) :
    Yields (partElements records .direct write node mark.block children content)
      (mark.fields ++ Figure.slotted figures (mark.slots figures.length)) := by
  have length := length_drawsAll draws
  have filled {content : Content} : Yields (fillSlots records .direct write node content others
      (mark.slots figures.length)) (Figure.slotted figures (mark.slots figures.length)) := by
    rw [fillSlots_eq (by omega)]
    exact yields_slotElements draws counted each
  have alone (none : others = []) (slotless : ∀ count, mark.slots count = []) :
      mark.fields ++ Figure.slotted figures (mark.slots figures.length) = mark.fields := by
    rw [slotless]
    cases figures <;> simp [Figure.slotted]
  cases marks with
  | use defined =>
      rw [alone operands fun _ => rfl]
      exact (yields_variableName defined).bind (Yields.pure _)
  | assignment name =>
      rcases operands with ⟨target, rfl, names⟩
      exact (yields_targetName names).bind (filled.bind (Yields.pure _))
  | binary known | unary known =>
      cases operands
      exact filled.bind (Yields.pure _)
  | call title =>
      cases operands
      rw [length] at filled ⊢
      exact filled.bind (Yields.pure _)
  | float finite =>
      rw [alone operands fun _ => rfl]
      simp only [partElements, finite, if_true]
      exact Yields.pure _
  | _ =>
      rw [alone operands fun _ => rfl]
      exact Yields.pure _

theorem mem_of_operands {mark : Mark} {children others : List Node}
    (operands : Operands records mark children others) {child : Node} (member : child ∈ others) :
    child ∈ children := by
  cases mark with
  | assignment name =>
      rcases operands with ⟨target, rfl, _⟩
      exact List.mem_cons_of_mem _ member
  | binary op | unary op | call title =>
      cases operands
      exact member
  | _ =>
      cases operands
      cases member

theorem fits_of_mem {figures : List Figure} (fit : Figure.AllFit figures) {figure : Figure}
    (member : figure ∈ figures) : figure.Fits := by
  induction figures with
  | nil => cases member
  | cons first rest ih =>
      rcases List.mem_cons.mp member with rfl | later
      · exact fit.1
      · exact ih fit.2 later

theorem listsBelow_shown (linked : Linked records) {id : NodeId} {child : Node} {depth : Nat}
    (shallow : records.listsBelow id < depth + 1) (member : child ∈ shown records id) :
    records.listsBelow child.id < depth := by
  have fewer := linked.listsBelow_lt (mem_orderedChildren.mp (stored_shown linked member).2)
  omega

/-- The writer gives the element of a figure that draws the tree. -/
theorem yields_blockElement (linked : Linked records) {depth : Nat} {figure : Figure}
    {node : Node} (stored : records.nodes.get? node.id = some node)
    (shallow : records.listsBelow node.id < depth) (draws : Draws records ids figure node)
    (fits : figure.Fits) : Yields (blockElement records .direct ids depth node) figure.element := by
  induction depth generalizing figure node with
  | zero => omega
  | succ depth ih =>
      rcases figure with ⟨mark, id, operands⟩
      rcases draws with ⟨rfl, ⟨ref, content, wraps, found, marks⟩, others, own, below⟩
      rcases fits with ⟨counted, readable, fit⟩
      refine Yields.bind (yields_content wraps found) ?_
      refine Yields.bind (yields_children linked stored) ?_
      rw [ofContent_mark marks]
      refine Yields.bind (yields_partElements marks own below counted ?_) ?_
      · intro figure child member listed draws
        have listed := mem_of_operands own listed
        exact ih (stored_shown linked listed).1 (listsBelow_shown linked shallow listed) draws
          (fits_of_mem fit member)
      · rw [Figure.element, attributes_eq]
        exact Yields.pure _

/-! ## Documents -/

theorem draws_of_chainElement {write : Node → ReadM Element} {nodes : List Node}
    {elements : List Element} {reading after : Reading}
    (done : chainElement write nodes reading = (.ok elements, after))
    (each : ∀ node ∈ nodes, Faithful records ids write node) :
    ∃ figures, DrawsAll records ids figures nodes ∧ Figure.AllFit figures ∧
      Figure.chained figures = elements := by
  induction nodes generalizing elements reading after with
  | nil =>
      cases (pure_eq_ok.mp done).1
      exact ⟨[], rfl, trivial, rfl⟩
  | cons node rest ih =>
      rcases bind_eq_ok.mp done with ⟨element, first, written, done⟩
      rcases bind_eq_ok.mp done with ⟨others, second, more, done⟩
      cases (pure_eq_ok.mp done).1
      rcases each node (by simp) element reading first written with ⟨figure, draws, fits, rfl⟩
      rcases ih more fun other member => each other (by simp [member]) with
        ⟨figures, all, fit, rfl⟩
      exact ⟨figure :: figures, ⟨node, rest, rfl, draws, all⟩, ⟨fits, fit⟩, rfl⟩

theorem yields_chainElement {write : Node → ReadM Element} {figures : List Figure}
    {nodes : List Node} (draws : DrawsAll records ids figures nodes)
    (each : ∀ figure node, figure ∈ figures → node ∈ nodes → Draws records ids figure node →
      Yields (write node) figure.element) :
    Yields (chainElement write nodes) (Figure.chained figures) := by
  induction figures generalizing nodes with
  | nil =>
      cases draws
      exact Yields.pure []
  | cons figure rest ih =>
      rcases draws with ⟨node, others, rfl, here, draws⟩
      have written := each figure node (by simp) (by simp) here
      have more := ih draws fun figure' node' member member' =>
        each figure' node' (by simp [member]) (by simp [member'])
      exact written.bind (more.bind (Yields.pure _))

/-- The nodes whose blocks form the document of a tree. -/
def written (records : Records) (node : Node) : List Node :=
  if node.isBlock then shown records node.id else [node]

theorem stored_written (linked : Linked records) {root node : Node}
    (stored : records.nodes.get? root.id = some root) (member : node ∈ written records root) :
    records.nodes.get? node.id = some node := by
  unfold written at member
  split at member
  · exact (stored_shown linked member).1
  · cases List.mem_singleton.mp member
    exact stored

/-- Whatever document is written for a stored node is the document of figures of what is written. -/
theorem draws_of_document (linked : Linked records)
    {root : Node} (stored : records.nodes.get? root.id = some root) {element : Element}
    {reading after : Reading}
    (done : document records .direct ids root reading = (.ok element, after)) :
    ∃ figures, DrawsAll records ids figures (written records root) ∧ Figure.AllFit figures ∧
      Figure.document figures = element := by
  have each : ∀ node ∈ written records root,
      Faithful records ids (blockElement records .direct ids records.depthBound) node :=
    fun node member => draws_of_blockElement linked (stored_written linked stored member)
  unfold written at each ⊢
  by_cases block : root.isBlock = true
  · rw [if_pos block] at each ⊢
    simp only [document, block, if_true] at done
    rcases bind_eq_ok.mp done with ⟨statements, first, read, done⟩
    cases (yields_children linked stored).eq read
    rcases bind_eq_ok.mp done with ⟨elements, second, chain, done⟩
    cases (pure_eq_ok.mp done).1
    rcases draws_of_chainElement chain each with ⟨figures, draws, fit, rfl⟩
    exact ⟨figures, draws, fit, rfl⟩
  · rw [if_neg block] at each ⊢
    simp only [document, block] at done
    rcases bind_eq_ok.mp done with ⟨one, first, own, done⟩
    cases (pure_eq_ok.mp done).1
    rcases each root (by simp) one reading first own with ⟨figure, draws, fits, rfl⟩
    exact ⟨[figure], ⟨root, [], rfl, draws, rfl⟩, ⟨fits, trivial⟩, rfl⟩

/-- The writer gives the document of the figures that draw what is written. -/
theorem yields_document (linked : Linked records) {root : Node}
    (stored : records.nodes.get? root.id = some root) {figures : List Figure}
    (draws : DrawsAll records ids figures (written records root)) (fit : Figure.AllFit figures) :
    Yields (document records .direct ids root) (Figure.document figures) := by
  have each : ∀ figure node, figure ∈ figures → node ∈ written records root →
      Draws records ids figure node →
        Yields (blockElement records .direct ids records.depthBound node) figure.element := by
    intro figure node member listed here
    exact yields_blockElement linked (stored_written linked stored listed)
      (records.listsBelow_lt_depthBound node.id) here (fits_of_mem fit member)
  unfold written at draws each
  by_cases block : root.isBlock = true
  · rw [if_pos block] at draws each
    simp only [document, block, if_true]
    refine Yields.bind (yields_children linked stored) ?_
    exact (yields_chainElement draws each).bind (Yields.pure _)
  · rw [if_neg block] at draws each
    simp only [document, block]
    cases figures with
    | nil => cases draws
    | cons figure rest =>
        rcases draws with ⟨node, others, same, here, draws⟩
        cases same
        cases rest with
        | nil =>
            exact (each figure root (by simp) (by simp) here).bind (Yields.pure _)
        | cons second rest =>
            rcases draws with ⟨_, _, impossible, _⟩
            cases impossible

theorem draws_of_build (linked : Linked records)
    {root : Node} (stored : records.nodes.get? root.id = some root) {text : String}
    {reading after : Reading}
    (done : build records .direct ids root reading = (.ok text, after)) :
    ∃ figures, DrawsAll records ids figures (written records root) ∧ Figure.AllFit figures ∧
      text = String.ofList (Figure.document figures).write := by
  rcases bind_eq_ok.mp done with ⟨element, middle, written, done⟩
  cases (pure_eq_ok.mp done).1
  rcases draws_of_document linked stored written with ⟨figures, draws, fit, rfl⟩
  exact ⟨figures, draws, fit, rfl⟩

theorem yields_build (linked : Linked records) {root : Node}
    (stored : records.nodes.get? root.id = some root) {figures : List Figure}
    (draws : DrawsAll records ids figures (written records root)) (fit : Figure.AllFit figures) :
    Yields (build records .direct ids root)
      (String.ofList (Figure.document figures).write) :=
  (yields_document linked stored draws fit).bind (Yields.pure _)

/-! ## Leaving out the numbers of the nodes -/

mutual

theorem draws_bare : ∀ {figure : Figure} {node : Node}, Draws records ids figure node →
    Draws records false figure.bare node
  | ⟨_, _, _⟩, _, ⟨_, marks, others, own, below⟩ =>
      ⟨rfl, marks, others, own, drawsAll_bare below⟩

theorem drawsAll_bare : ∀ {figures : List Figure} {nodes : List Node},
    DrawsAll records ids figures nodes → DrawsAll records false (Figure.bareAll figures) nodes
  | [], _, empty => empty
  | _ :: _, _, ⟨node, others, same, here, draws⟩ =>
      ⟨node, others, same, draws_bare here, drawsAll_bare draws⟩

end

theorem length_bareAll (figures : List Figure) :
    (Figure.bareAll figures).length = figures.length := by
  induction figures with
  | nil => rfl
  | cons figure rest ih => simp [Figure.bareAll, ih]

mutual

theorem fits_bare : ∀ {figure : Figure}, figure.Fits → figure.bare.Fits
  | ⟨mark, id, operands⟩, ⟨counted, readable, fit⟩ => by
      refine ⟨?_, readable, allFit_bare fit⟩
      rw [length_bareAll, counted]

theorem allFit_bare : ∀ {figures : List Figure}, Figure.AllFit figures →
    Figure.AllFit (Figure.bareAll figures)
  | [], _ => trivial
  | _ :: _, ⟨fits, fit⟩ => ⟨fits_bare fits, allFit_bare fit⟩

end

end RuleTree.Block
