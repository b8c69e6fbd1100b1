import RuleTree.Proofs.Block.RoundTrip
import RuleTree.Proofs.Reading.Cost
import Mathlib

/-!
# Which nodes have blocks

A document has one block for each node of a tree that is no definition and no variable of an
assignment, as long as no node without slots is above it (`Reachable.blocks_of_build`).  What hangs
below a constant, a variable or a definition is left out, although the document is written.
-/

namespace RuleTree

mutual

/-- The elements with a name, each of them before those inside of it. -/
def Element.named (name : String) : Element → List Element
  | ⟨tag, attributes, text, children⟩ =>
    (if tag = name then [⟨tag, attributes, text, children⟩] else []) ++ allNamed name children

/-- The elements with a name in several elements. -/
def Element.allNamed (name : String) : List Element → List Element
  | [] => []
  | element :: rest => element.named name ++ allNamed name rest

end

namespace Block

open Records Relation

variable {records : Records} {ids : Bool}

/-! ## The blocks of figures -/

mutual

/-- What the blocks of a figure are, each with the number that it shows. -/
def Figure.outline : Figure → List (Mark × Option String)
  | ⟨mark, id, operands⟩ => (mark, id) :: outlineAll operands

def Figure.outlineAll : List Figure → List (Mark × Option String)
  | [] => []
  | figure :: rest => outline figure ++ outlineAll rest

end

/-- The attributes of the elements are those of the blocks of an outline. -/
def Outlines (elements : List Element) (outline : List (Mark × Option String)) : Prop :=
  elements.map Element.attributes = outline.map fun entry => Figure.attributes entry.1 entry.2

theorem Outlines.cons {element : Element} {elements : List Element} {mark : Mark}
    {id : Option String} {outline : List (Mark × Option String)}
    (rest : Outlines elements outline) (first : element.attributes = Figure.attributes mark id) :
    Outlines (element :: elements) ((mark, id) :: outline) := by
  unfold Outlines at rest ⊢
  rw [List.map_cons, List.map_cons, first, rest]

theorem Outlines.append {elements elements' : List Element}
    {outline outline' : List (Mark × Option String)} (first : Outlines elements outline)
    (second : Outlines elements' outline') :
    Outlines (elements ++ elements') (outline ++ outline') := by
  unfold Outlines at first second ⊢
  rw [List.map_append, List.map_append, first, second]

theorem allNamed_append (name : String) (elements elements' : List Element) :
    Element.allNamed name (elements ++ elements') =
      Element.allNamed name elements ++ Element.allNamed name elements' := by
  induction elements with
  | nil => rfl
  | cons element rest ih => simp [Element.allNamed, ih]

theorem allNamed_fields (mark : Mark) : Element.allNamed "block" mark.fields = [] := by
  cases mark with
  | binary op | unary op => cases op <;> rfl
  | _ => rfl

mutual

theorem outlines_element : ∀ {figure : Figure}, figure.Fits →
    Outlines (figure.element.named "block") figure.outline
  | ⟨mark, id, operands⟩, ⟨counted, _, fit⟩ => by
      have below := outlines_slotted fit counted
      rw [Figure.element, Element.named, if_pos rfl, allNamed_append, allNamed_fields]
      exact below.cons rfl

theorem outlines_slotted : ∀ {figures : List Figure} {slots : List String}, Figure.AllFit figures →
    slots.length = figures.length →
      Outlines (Element.allNamed "block" (Figure.slotted figures slots)) (Figure.outlineAll figures)
  | [], [], _, _ => rfl
  | [], _ :: _, _, counted => by cases counted
  | _ :: _, [], _, counted => by cases counted
  | ⟨mark, id, operands⟩ :: rest, slot :: slots, ⟨fits, fit⟩, counted => by
      have here := outlines_element fits
      have others := outlines_slotted fit (Nat.succ.inj counted)
      have inside (element : Element) : Element.named "block"
          ⟨mark.wrapper, [("name", slot)], "", [element]⟩ = element.named "block" := by
        cases mark <;> simp [Element.named, Element.allNamed, Mark.wrapper]
      rw [Figure.slotted, Element.allNamed, inside]
      exact here.append others

end

/-- The blocks after a block come after those inside of it. -/
theorem attributes_chained (element : Element) (others : List Element) :
    ((chained element others).named "block").map Element.attributes =
      (element.named "block" ++ Element.allNamed "block" others).map Element.attributes := by
  cases others with
  | nil => simp [chained, Element.allNamed]
  | cons other rest =>
      rcases element with ⟨name, attributes, text, children⟩
      have step : Element.allNamed "block" [⟨"next", [], "", other :: rest⟩] =
          Element.allNamed "block" (other :: rest) := by
        simp [Element.allNamed, Element.named]
      have below : chained ⟨name, attributes, text, children⟩ (other :: rest) =
          ⟨name, attributes, text, children ++ [⟨"next", [], "", other :: rest⟩]⟩ := rfl
      rw [below, Element.named, Element.named, allNamed_append, step]
      by_cases block : name = "block" <;> simp [block]

theorem outlines_chained {figures : List Figure} (fit : Figure.AllFit figures) :
    Outlines (Element.allNamed "block" (Figure.chained figures)) (Figure.outlineAll figures) := by
  induction figures with
  | nil => rfl
  | cons figure rest ih =>
      have here := outlines_element fit.1
      have split := here.append (ih fit.2)
      unfold Outlines at split ⊢
      rw [Figure.chained, Element.allNamed, Element.allNamed, List.append_nil, attributes_chained,
        split]
      rfl

/-! ## What is drawn -/

/-- The children of a node whose blocks stand in the slots of its block. -/
def operands (records : Records) (node : Node) : List Node :=
  match node.content.map ContentRef.kind with
  | some .assignment => (shown records node.id).tail
  | some .binary | some .unary | some .call => shown records node.id
  | _ => []

/-- A block stands in a slot of the block of another node. -/
def Operand (records : Records) (node child : Node) : Prop := child ∈ operands records node

/-- The block of a node without those in its slots. -/
def Drawn (records : Records) (ids : Bool) (entry : Mark × Option String) (node : Node) : Prop :=
  entry.2 = (if ids then some node.id.text else none) ∧
    (∃ ref content, node.content = some ref ∧ records.objects.get? ref = some content ∧
      Marks records content entry.1) ∧
    Operands records entry.1 (shown records node.id) (operands records node)

theorem mem_shown_of_operand {node child : Node} (operand : Operand records node child) :
    child ∈ shown records node.id := by
  unfold Operand operands at operand
  split at operand
  · exact List.mem_of_mem_tail operand
  · exact operand
  · exact operand
  · exact operand
  · cases operand

theorem childOf_of_shown (linked : Linked records) {id : NodeId} {child : Node}
    (member : child ∈ shown records id) : records.ChildOf id child.id :=
  mem_orderedChildren.mp (stored_shown linked member).2

theorem childOf_of_operand (linked : Linked records) {node child : Node}
    (operand : Operand records node child) : records.ChildOf node.id child.id :=
  childOf_of_shown linked (mem_shown_of_operand operand)

theorem within_of_operands (linked : Linked records) {top node : Node}
    (path : ReflTransGen (Operand records) top node) : records.Within top.id node.id :=
  path.lift Node.id fun _ _ operand => childOf_of_operand linked operand

theorem operands_eq (linked : Linked records) {node : Node} {ref : ContentRef} {content : Content}
    {mark : Mark} {others : List Node} (wraps : node.content = some ref)
    (stored : records.objects.get? ref = some content) (marks : Marks records content mark)
    (own : Operands records mark (shown records node.id) others) :
    operands records node = others := by
  have kind : ref.kind = content.kind := (linked.addressed stored).2.symm
  unfold operands
  rw [wraps, Option.map_some, kind]
  cases marks with
  | assignment name =>
      rcases own with ⟨target, listed, _⟩
      simp only [Content.kind, listed, List.tail_cons]
  | binary known | unary known | call title => exact own
  | _ => exact own.symm

/-- The trees of different nodes among some have no blocks in common. -/
def Apart (records : Records) (tops : List Node) : Prop :=
  tops.Pairwise fun left right => ∀ node, ReflTransGen (Operand records) left node →
    ¬ReflTransGen (Operand records) right node

theorem apart_shown (linked : Linked records) (id : NodeId) : Apart records (shown records id) := by
  have present := linked.present_children fun child (member : child ∈ records.orderedChildren id) =>
    mem_orderedChildren.mp member
  have once : ((records.orderedChildren id).filterMap records.nodes.get?).map Node.id |>.Nodup := by
    rw [linked.filterMap_ids present]
    exact orderedChildren_perm.nodup_iff.mpr (linked.once id)
  have different : ((shown records id).map Node.id).Nodup :=
    once.sublist (List.filter_sublist.map Node.id)
  refine (List.pairwise_map.mp different).imp_of_mem fun {left right} left_mem right_mem apart => ?_
  intro node left_path right_path
  exact apart (linked.branch_unique (childOf_of_shown linked left_mem)
    (childOf_of_shown linked right_mem) (within_of_operands linked left_path)
    (within_of_operands linked right_path))

theorem apart_operands (linked : Linked records) (node : Node) :
    Apart records (operands records node) := by
  unfold operands
  split
  · exact List.Pairwise.sublist (List.tail_sublist _) (apart_shown linked node.id)
  · exact apart_shown linked node.id
  · exact apart_shown linked node.id
  · exact apart_shown linked node.id
  · exact .nil

theorem apart_written (linked : Linked records) (root : Node) :
    Apart records (written records root) := by
  unfold written
  split
  · exact apart_shown linked root.id
  · exact List.pairwise_singleton _ _

mutual

/-- A figure has one block for each node that it draws, and it draws what is reached over slots. -/
theorem nodes_of_draws (linked : Linked records) : ∀ {figure : Figure} {node : Node},
    Draws records ids figure node →
      ∃ nodes, List.Forall₂ (Drawn records ids) figure.outline nodes ∧ nodes.Nodup ∧
        ∀ other, other ∈ nodes ↔ ReflTransGen (Operand records) node other
  | ⟨mark, id, below⟩, node, ⟨shows, ⟨ref, content, wraps, stored, marks⟩, others, own, draws⟩ => by
      rcases operands_eq linked wraps stored marks own with rfl
      rcases nodes_of_drawsAll linked draws (apart_operands linked node) with
        ⟨nodes, drawn, once, reached⟩
      have first : Drawn records ids (mark, id) node :=
        ⟨shows, ⟨ref, content, wraps, stored, marks⟩, own⟩
      refine ⟨node :: nodes, .cons first drawn, List.nodup_cons.mpr ⟨?_, once⟩, fun other => ?_⟩
      · intro member
        rcases (reached node).mp member with ⟨top, operand, path⟩
        exact linked.not_under_self node.id
          (.head' (childOf_of_operand linked operand) (within_of_operands linked path))
      · rw [List.mem_cons, reached]
        constructor
        · rintro (rfl | ⟨top, operand, path⟩)
          · exact .refl
          · exact path.head operand
        · intro path
          rcases path.cases_head with rfl | ⟨top, operand, path⟩
          · exact .inl rfl
          · exact .inr ⟨top, operand, path⟩

theorem nodes_of_drawsAll (linked : Linked records) : ∀ {figures : List Figure} {tops : List Node},
    DrawsAll records ids figures tops → Apart records tops →
      ∃ nodes, List.Forall₂ (Drawn records ids) (Figure.outlineAll figures) nodes ∧ nodes.Nodup ∧
        ∀ other, other ∈ nodes ↔ ∃ top ∈ tops, ReflTransGen (Operand records) top other
  | [], _, empty, _ => by
      cases empty
      exact ⟨[], .nil, List.nodup_nil, by simp⟩
  | _ :: _, _, ⟨node, others, same, here, draws⟩, apart => by
      cases same
      rcases List.pairwise_cons.mp apart with ⟨first, rest⟩
      rcases nodes_of_draws linked here with ⟨nodes, drawn, once, reached⟩
      rcases nodes_of_drawsAll linked draws rest with ⟨nodes', drawn', once', reached'⟩
      refine ⟨nodes ++ nodes', List.rel_append drawn drawn', List.nodup_append.mpr
        ⟨once, once', ?_⟩, fun other => ?_⟩
      · rintro shared member _ member' rfl
        rcases (reached' shared).mp member' with ⟨top, top_mem, path⟩
        exact first top top_mem shared ((reached shared).mp member) path
      · simp [reached, reached']

end

/-! ## Which nodes should have blocks -/

/-- The node wraps a constant, a variable or a definition, which expect no children. -/
def Slotless (node : Node) : Prop :=
  ∃ ref, node.content = some ref ∧ ref.kind.arity = .fixed 0

/-- The node is the variable of an assignment in a tree. -/
def Bound (records : Records) (root : NodeId) (node : Node) : Prop :=
  ∃ assignment, Reading.Inside records root assignment ∧
    assignment.content.map ContentRef.kind = some .assignment ∧
      node.content.map ContentRef.kind = some .use ∧
        (shown records assignment.id).head? = some node

/-- The node lies in a tree; it is not the block at the top, no definition and no variable of an
assignment. -/
structure Due (records : Records) (root node : Node) : Prop where
  inside : Reading.Inside records root.id node
  apart : root.isBlock = true → node ≠ root
  visible : node.content.map ContentRef.kind ≠ some .definition
  unbound : ¬Bound records root.id node

/-- No node above it in a tree is without slots. -/
def Exposed (records : Records) (root node : Node) : Prop :=
  ∀ above, Reading.Inside records root.id above → records.Under above.id node.id →
    ¬Slotless above

/-- The node is written, or its block stands in a slot of one that is placed. -/
inductive Placed (records : Records) (root : Node) : Node → Prop where
  | top {node : Node} : node ∈ written records root → Placed records root node
  | slot {node child : Node} : Placed records root node → Operand records node child →
      Placed records root child

theorem placed_iff {root node : Node} : Placed records root node ↔
    ∃ top ∈ written records root, ReflTransGen (Operand records) top node := by
  constructor
  · intro placed
    induction placed with
    | top member => exact ⟨_, member, .refl⟩
    | slot _ operand ih =>
        rcases ih with ⟨top, member, path⟩
        exact ⟨top, member, path.tail operand⟩
  · rintro ⟨top, member, path⟩
    induction path with
    | refl => exact .top member
    | tail _ operand ih => exact .slot ih operand

theorem mem_shown {id : NodeId} {child : Node} (listed : records.ChildOf id child.id)
    (found : records.nodes.get? child.id = some child)
    (visible : child.content.map ContentRef.kind ≠ some .definition) : child ∈ shown records id :=
  List.mem_filter.mpr ⟨List.mem_filterMap.mpr ⟨_, mem_orderedChildren.mpr listed, found⟩,
    by simpa using visible⟩

/-- A node with blocks in its slots has slots. -/
theorem not_slotless_of_operand {node child : Node} (operand : Operand records node child) :
    ¬Slotless node := by
  rintro ⟨ref, wraps, slotless⟩
  unfold Operand operands at operand
  rw [wraps, Option.map_some] at operand
  cases kind : ref.kind <;> rw [kind] at operand slotless
  all_goals first | (cases slotless; done) | cases operand

section Placed

variable {root : Node}

/-- Whatever is written is the root, or a child of the root if that is a block. -/
theorem written_cases (linked : Linked records) {node : Node}
    (member : node ∈ written records root) :
    (root.isBlock = true ∧ records.ChildOf root.id node.id) ∨
      (root.isBlock = false ∧ node = root) := by
  unfold written at member
  by_cases block : root.isBlock = true
  · rw [if_pos block] at member
    exact .inl ⟨block, childOf_of_shown linked member⟩
  · rw [if_neg block] at member
    exact .inr ⟨by simpa using block, List.mem_singleton.mp member⟩

/-- What is placed in the document of a block lies below the block. -/
theorem Placed.under (linked : Linked records) {node : Node} (placed : Placed records root node)
    (block : root.isBlock = true) : records.Under root.id node.id := by
  induction placed with
  | top member =>
      rcases written_cases linked member with ⟨_, child⟩ | ⟨other, _⟩
      · exact .single child
      · rw [block] at other
        cases other
  | slot _ operand ih => exact ih.tail (childOf_of_operand linked operand)

/-- Nodes as they are stored are the same if they have one number. -/
theorem inside_eq {node other : Node} (inside : Reading.Inside records root.id node)
    (inside' : Reading.Inside records root.id other) (same : node.id = other.id) :
    node = other := by
  have found := inside.stored
  rw [same, inside'.stored] at found
  exact (Option.some.inj found).symm

variable (linked : Linked records) (stored : records.nodes.get? root.id = some root)

include linked stored

theorem Placed.inside {node : Node} (placed : Placed records root node) :
    Reading.Inside records root.id node := by
  induction placed with
  | top member =>
      refine ⟨?_, stored_written linked stored member⟩
      rcases written_cases linked member with ⟨_, child⟩ | ⟨_, rfl⟩
      · exact .single child
      · exact .refl
  | slot _ operand ih =>
      exact ⟨ih.within.tail (childOf_of_operand linked operand),
        (stored_shown linked (mem_shown_of_operand operand)).1⟩

/-- Two nodes of which each is above the other, or the same, are the same. -/
theorem inside_antisymm {node : Node} (inside : Reading.Inside records root.id node)
    (back : records.Within node.id root.id) : node = root := by
  have same : node.id = root.id := by
    rcases reflTransGen_iff_eq_or_transGen.mp inside.within with same | under
    · exact same
    · exact absurd (under.trans_left back) (linked.not_under_self _)
  exact inside_eq inside ⟨.refl, stored⟩ same

/-- A node that has a placed child is the block at the top, or it is placed and the child stands in
one of its slots. -/
theorem Placed.parent {node parent : Node} (placed : Placed records root node)
    (inside : Reading.Inside records root.id parent)
    (child : records.ChildOf parent.id node.id) :
    (parent = root ∧ root.isBlock = true) ∨
      (Placed records root parent ∧ Operand records parent node) := by
  cases placed with
  | top member =>
      rcases written_cases linked member with ⟨block, child'⟩ | ⟨_, rfl⟩
      · refine .inl ⟨inside_antisymm linked stored inside ?_, block⟩
        rw [linked.owner_unique child child']
        exact .refl
      · exact absurd (TransGen.tail' inside.within child) (linked.not_under_self _)
  | slot placed' operand =>
      rcases inside_eq inside (placed'.inside linked stored)
        (linked.owner_unique child (childOf_of_operand linked operand)) with rfl
      exact .inr ⟨placed', operand⟩

theorem Placed.unbound {node : Node} (placed : Placed records root node) :
    ¬Bound records root.id node := by
  rintro ⟨assignment, inside, kind, _, first⟩
  have shows : node ∈ shown records assignment.id := List.mem_of_mem_head? first
  rcases placed.parent linked stored inside (childOf_of_shown linked shows) with
    ⟨rfl, block⟩ | ⟨_, operand⟩
  · rw [Node.isBlock, Option.isNone_iff_eq_none] at block
    rw [block] at kind
    cases kind
  · -- The variable is the first child, and only the others stand in slots.
    have apart := apart_shown linked assignment.id
    have later : node ∈ (shown records assignment.id).tail := by
      unfold Operand operands at operand
      rw [kind] at operand
      exact operand
    cases listed : shown records assignment.id with
    | nil =>
        rw [listed] at shows
        cases shows
    | cons head rest =>
        rw [listed] at first later apart
        cases first
        exact (List.pairwise_cons.mp apart).1 node later node .refl .refl

theorem Placed.exposed {node : Node} (placed : Placed records root node) :
    Exposed records root node := by
  intro above inside under
  induction placed with
  | top member =>
      rcases TransGen.tail'_iff.mp under with ⟨parent, within, child⟩
      rcases written_cases linked member with ⟨block, child'⟩ | ⟨_, rfl⟩
      · rw [linked.owner_unique child child'] at within
        rcases inside_antisymm linked stored inside within with rfl
        rintro ⟨ref, wraps, _⟩
        rw [Node.isBlock, wraps] at block
        cases block
      · exact absurd (under.trans_right inside.within) (linked.not_under_self _)
  | slot placed operand ih =>
      rcases TransGen.tail'_iff.mp under with ⟨other, within, child⟩
      rw [linked.owner_unique child (childOf_of_operand linked operand)] at within
      rcases reflTransGen_iff_eq_or_transGen.mp within with same | under
      · rcases inside_eq (placed.inside linked stored) inside same with rfl
        exact not_slotless_of_operand operand
      · exact ih under

end Placed

/-- All nodes that are placed can be drawn. -/
def Drawable (records : Records) (ids : Bool) (root : Node) : Prop :=
  ∀ {node}, Placed records root node → ∃ entry, Drawn records ids entry node

theorem Drawn.visible (linked : Linked records) {entry : Mark × Option String} {node : Node}
    (drawn : Drawn records ids entry node) :
    node.content.map ContentRef.kind ≠ some .definition := by
  rcases entry with ⟨mark, id⟩
  rcases drawn with ⟨_, ⟨ref, content, wraps, stored, marks⟩, _⟩
  rw [wraps, Option.map_some, ← (linked.addressed stored).2]
  cases marks <;> simp [Content.kind]

/-- A child of a drawn node with slots stands in one of them, or it is the variable of an
assignment. -/
theorem Drawn.child (linked : Linked records) {root : NodeId} {entry : Mark × Option String}
    {node child : Node} (drawn : Drawn records ids entry node)
    (inside : Reading.Inside records root node) (slots : ¬Slotless node)
    (shows : child ∈ shown records node.id) :
    Operand records node child ∨ Bound records root child := by
  rcases entry with ⟨mark, id⟩
  rcases drawn with ⟨_, ⟨ref, content, wraps, stored, marks⟩, own⟩
  have kind := (linked.addressed stored).2
  have slotted : content.arity ≠ .fixed 0 := by
    intro slotless
    exact slots ⟨ref, wraps, kind ▸ slotless⟩
  cases marks with
  | assignment name =>
      rcases own with ⟨target, listed, uses⟩
      rw [listed] at shows
      rcases List.mem_cons.mp shows with rfl | later
      · refine .inr ⟨node, inside, by rw [wraps, Option.map_some, ← kind]; rfl, ?_,
          by rw [listed]; rfl⟩
        rcases uses with ⟨use, definition, source, wraps', stored', _⟩
        rw [wraps', Option.map_some, ← (linked.addressed stored').2]
        rfl
      · exact .inl later
  | binary known | unary known | call title =>
      rw [show shown records node.id = operands records node from own] at shows
      exact .inl shows
  | _ => exact absurd rfl slotted

/-- Unless a node without slots is above it, a node is placed or it is the variable of an
assignment. -/
theorem placed_or_bound {root : Node} (linked : Linked records)
    (stored : records.nodes.get? root.id = some root) (drawable : Drawable records ids root)
    {id : NodeId} (within : records.Within root.id id) {node : Node}
    (found : records.nodes.get? id = some node)
    (apart : root.isBlock = true → node ≠ root)
    (visible : node.content.map ContentRef.kind ≠ some .definition)
    (exposed : Exposed records root node) :
    Placed records root node ∨ Bound records root.id node := by
  induction within generalizing node with
  | refl =>
      rw [stored] at found
      cases found
      refine .inl (.top ?_)
      rw [written, if_neg fun block => apart block rfl]
      exact List.mem_singleton_self _
  | tail within child ih =>
      rcases linked.keyed found with rfl
      rcases linked.within_stored ⟨root, stored⟩ within with ⟨parent, parent_found⟩
      rcases linked.keyed parent_found with rfl
      have shows := mem_shown child found visible
      by_cases top : root.isBlock = true ∧ parent = root
      · rcases top with ⟨block, rfl⟩
        refine .inl (.top ?_)
        rw [written, if_pos block]
        exact shows
      · have inside : Reading.Inside records root.id parent := ⟨within, parent_found⟩
        have slots : ¬Slotless parent := exposed parent inside (.single child)
        have parent_visible : parent.content.map ContentRef.kind ≠ some .definition := by
          intro definition
          rcases Option.map_eq_some_iff.mp definition with ⟨ref, wraps, kind⟩
          exact slots ⟨ref, wraps, by rw [kind]; rfl⟩
        have parent_exposed : Exposed records root parent :=
          fun above inside under => exposed above inside (under.tail child)
        rcases ih parent_found (fun block same => top ⟨block, same⟩) parent_visible parent_exposed
          with placed | ⟨_, _, _, variable_kind, _⟩
        · rcases drawable placed with ⟨entry, drawn⟩
          exact (drawn.child linked inside slots shows).imp_left fun operand => .slot placed operand
        · rcases Option.map_eq_some_iff.mp variable_kind with ⟨ref, wraps, kind⟩
          exact absurd ⟨ref, wraps, by rw [kind]; rfl⟩ slots

/-- The placed nodes are those that should have blocks and have no node without slots above. -/
theorem placed_iff_due {root node : Node} (linked : Linked records)
    (stored : records.nodes.get? root.id = some root) (drawable : Drawable records ids root) :
    Placed records root node ↔ Due records root node ∧ Exposed records root node := by
  constructor
  · intro placed
    rcases drawable placed with ⟨entry, drawn⟩
    refine ⟨⟨placed.inside linked stored, ?_, drawn.visible linked,
      placed.unbound linked stored⟩, placed.exposed linked stored⟩
    rintro block rfl
    exact linked.not_under_self _ (placed.under linked block)
  · rintro ⟨due, exposed⟩
    rcases placed_or_bound linked stored drawable due.inside.within due.inside.stored
      due.apart due.visible exposed with placed | bound
    · exact placed
    · exact absurd bound due.unbound

theorem drawable_of_forall₂ {root : Node} {outline : List (Mark × Option String)}
    {nodes : List Node} (drawn : List.Forall₂ (Drawn records ids) outline nodes)
    (reached : ∀ node, node ∈ nodes ↔
      ∃ top ∈ written records root, ReflTransGen (Operand records) top node) :
    Drawable records ids root := by
  intro node placed
  have turned : List.Forall₂ (fun node entry => Drawn records ids entry node) nodes outline :=
    drawn.flip
  rcases exists_of_forall₂ turned ((reached node).mpr (placed_iff.mp placed)) with
    ⟨entry, _, here⟩
  exact ⟨entry, here⟩

/-! ## Documents -/

/-- The element is the block of a node: it has the type of the object, and the number of the node if
it is shown. -/
def IsBlockOf (records : Records) (ids : Bool) (element : Element) (node : Node) : Prop :=
  ∃ ref content block, node.content = some ref ∧ records.objects.get? ref = some content ∧
    ofContent content = .ok block ∧
      element.attributes =
        ("type", block.blockType) :: (if ids then [("id", node.id.text)] else [])

theorem blocks_of_outline {elements : List Element} {outline : List (Mark × Option String)}
    {nodes : List Node} (outlines : Outlines elements outline)
    (drawn : List.Forall₂ (Drawn records ids) outline nodes) :
    List.Forall₂ (IsBlockOf records ids) elements nodes := by
  have shown_by : List.Forall₂ (fun attributes node => ∃ ref content block,
      node.content = some ref ∧ records.objects.get? ref = some content ∧
        ofContent content = .ok block ∧ attributes =
          ("type", block.blockType) :: (if ids then [("id", node.id.text)] else []))
      (elements.map Element.attributes) nodes := by
    rw [outlines, List.forall₂_map_left_iff]
    refine drawn.imp ?_
    rintro ⟨mark, id⟩ node ⟨rfl, ⟨ref, content, wraps, stored, marks⟩, _⟩
    exact ⟨ref, content, mark.block, wraps, stored, ofContent_mark marks,
      attributes_eq mark node⟩
  rw [List.forall₂_map_left_iff] at shown_by
  exact shown_by

end Block

/-- Whenever a stored tree has a document, the blocks of the document correspond one to one to those
nodes of the tree that are not the block at the top, no definition and no variable of an assignment,
and that have no constant, variable or definition above them in the tree. -/
theorem Reachable.blocks_of_build {store : Store} (reachable : Reachable store) {root : Node}
    {access : Access} {ids : Bool} {text : String}
    (stored : store.records.nodes.get? root.id = some root)
    (built : (Block.build store.records access ids root Reading.start).1 = .ok text) :
    ∃ document nodes, Element.read text.toList = .ok document ∧
      List.Forall₂ (Block.IsBlockOf store.records ids) (document.named "block") nodes ∧
      nodes.Nodup ∧ ∀ node, node ∈ nodes ↔
        Block.Due store.records root node ∧ Block.Exposed store.records root node := by
  have linked := reachable.tidy.linked
  rcases Block.figures_of_build reachable.tidy stored built with ⟨figures, draws, fit, rfl⟩
  rcases Block.nodes_of_drawsAll linked draws (Block.apart_written linked root) with
    ⟨nodes, drawn, once, reached⟩
  have drawable : Block.Drawable store.records ids root := Block.drawable_of_forall₂ drawn reached
  refine ⟨Block.Figure.document figures, nodes, ?_, ?_, once, fun node => ?_⟩
  · rw [String.toList_ofList]
    exact Element.read_write ⟨by decide, by simp, by simp, Block.wellNamed_chained figures⟩
  · exact Block.blocks_of_outline (Block.outlines_chained fit) drawn
  · rw [reached, ← Block.placed_iff, Block.placed_iff_due linked stored drawable]

/-- A block with a negation in it. -/
def negationStore : Store :=
  (Tree.addChild ⟨2⟩ (.boolean true)
    (Tree.addChild ⟨1⟩ (.unary "not") (Tree.addRoot none Store.empty).2).2).2

def topBlock : Node := ⟨⟨1⟩, none, 0, none⟩

def negationText : String :=
  "<xml><block type=\"logic_negate\" id=\"2\"><value name=\"BOOL\">" ++
    "<block type=\"logic_boolean\" id=\"3\"><field name=\"BOOL\">TRUE</field></block>" ++
    "</value></block></xml>"

theorem blocks_of_build_negation :
    (Block.build negationStore.records .cached true topBlock Reading.start).1 = .ok negationText ∧
      ∃ document nodes, Element.read negationText.toList = .ok document ∧
        List.Forall₂ (Block.IsBlockOf negationStore.records true) (document.named "block") nodes ∧
        nodes.Nodup ∧ ∀ node, node ∈ nodes ↔
          Block.Due negationStore.records topBlock node ∧
            Block.Exposed negationStore.records topBlock node := by
  have reachable : Reachable negationStore :=
    .addChild _ _ (.addChild _ _ (.addRoot none .empty))
  have built : (Block.build negationStore.records .cached true topBlock Reading.start).1 =
      .ok negationText := by cbv
  exact ⟨built, reachable.blocks_of_build (by rfl) built⟩

/-- A block with a constant in it, below which hangs another constant. -/
def hangingStore : Store :=
  (Tree.addChild ⟨2⟩ (.text "a")
    (Tree.addChild ⟨1⟩ (.integer 1) (Tree.addRoot none Store.empty).2).2).2

def hangingText : String :=
  "<xml><block type=\"math_number\"><field name=\"NUM\">1</field></block></xml>"

/-- The document shows the one constant and not the other. -/
theorem hanging_constant_undrawn : Reachable hangingStore ∧
    (Block.build hangingStore.records .cached false topBlock Reading.start).1 =
      .ok hangingText ∧
    (Element.read hangingText.toList).map (fun document => (document.named "block").length) =
      .ok 1 ∧
    Block.Due hangingStore.records topBlock ⟨⟨2⟩, some ⟨1⟩, 0, some ⟨.integer, ⟨1⟩⟩⟩ ∧
    Block.Due hangingStore.records topBlock ⟨⟨3⟩, some ⟨2⟩, 0, some ⟨.text, ⟨2⟩⟩⟩ := by
  have upper : hangingStore.records.ChildOf ⟨1⟩ ⟨2⟩ := by
    unfold Records.ChildOf
    decide
  have lower : hangingStore.records.ChildOf ⟨2⟩ ⟨3⟩ := by
    unfold Records.ChildOf
    decide
  refine ⟨.addChild _ _ (.addChild _ _ (.addRoot none .empty)), by cbv, by cbv,
    ⟨⟨.single upper, by cbv⟩, by simp [topBlock], by simp, ?_⟩,
    ⟨⟨.tail (.single upper) lower, by cbv⟩, by simp [topBlock], by simp, ?_⟩⟩
  all_goals
    rintro ⟨_, _, _, kind, _⟩
    cases kind

end RuleTree
