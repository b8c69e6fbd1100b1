import RuleTree.Proofs.Tree.Linked

/-!
# Records that grow

Saving a node or an object adds one record under a fresh number and leaves all others as they were.
Linked records stay linked, and contiguous ones stay contiguous when a new child gets the position
after the last one.  `Records.Grown` is what a sequence of such steps does: nothing that was stored
changes, apart from the lists of children of the nodes that are being extended.
-/

namespace RuleTree.Records

variable {records before middle after : Records}

/-! ## Saving a node -/

theorem saveNode_eq_ok {parent : Option NodeId} {position : Nat} {content : Option ContentRef}
    {node : Node} :
    records.saveNode parent position content = .ok (node, after) ↔
      (∀ id, parent = some id → ∃ above, records.nodes.get? id = some above) ∧
        (∀ ref, content = some ref → ∃ object, records.objects.get? ref = some object) ∧
          node = ⟨⟨records.lastNode + 1⟩, parent, position, content⟩ ∧
            records.insertNode node = after := by
  unfold saveNode
  have present {κ α : Type} [Ord κ] [DecidableEq κ] (table : Table κ α) (key : Option κ) :
      (key.filter fun k => !table.contains k) = none ↔
        ∀ k, key = some k → ∃ value, table.get? k = some value := by
    cases key with
    | none => simp
    | some k => simp [Table.contains, Option.ne_none_iff_exists']
  have first := present records.nodes parent
  have second := present records.objects content
  cases parentCase : parent.filter fun p => !records.nodes.contains p with
  | some missing =>
      rw [parentCase] at first
      constructor
      · intro impossible
        cases impossible
      · rintro ⟨stored, _⟩
        exact absurd (first.mpr stored) (by simp)
  | none =>
      rw [parentCase] at first
      cases contentCase : content.filter fun ref => !records.objects.contains ref with
      | some missing =>
          rw [contentCase] at second
          constructor
          · intro impossible
            cases impossible
          · rintro ⟨_, stored, _⟩
            exact absurd (second.mpr stored) (by simp)
      | none =>
          rw [contentCase] at second
          constructor
          · intro saved
            cases saved
            exact ⟨first.mp rfl, second.mp rfl, rfl, rfl⟩
          · rintro ⟨_, _, rfl, rfl⟩
            rfl

section Insert

variable (records) (node : Node)

@[simp]
theorem get?_insertNode (id : NodeId) :
    (records.insertNode node).nodes.get? id =
      if node.id = id then some node else records.nodes.get? id := by
  simp [insertNode]

theorem childList_insertNode (parent : NodeId) :
    (records.insertNode node).childList parent =
      if node.parent = some parent then records.childList parent ++ [node.id]
      else records.childList parent := by
  unfold insertNode childList
  cases above : node.parent with
  | none => simp
  | some id =>
      by_cases same : id = parent
      · subst same
        simp
      · simp [same]

@[simp]
theorem objects_insertNode : (records.insertNode node).objects = records.objects := rfl

theorem lastNode_insertNode (fresh : records.lastNode < node.id.val) :
    (records.insertNode node).lastNode = node.id.val := by
  simp only [insertNode]
  omega

variable (ref : ContentRef) (content : Content)

@[simp]
theorem nodes_insertObject : (records.insertObject ref content).nodes = records.nodes := rfl

@[simp]
theorem get?_insertObject (other : ContentRef) :
    (records.insertObject ref content).objects.get? other =
      if ref = other then some content else records.objects.get? other := by
  simp [insertObject]

theorem lastObject_insertObject (fresh : records.lastObject < ref.id.val) :
    (records.insertObject ref content).lastObject = ref.id.val := by
  simp only [insertObject]
  omega

end Insert

/-- What is found afterwards is the new node or was found before. -/
theorem get?_insertNode_cases {node found : Node} {id : NodeId}
    (present : (records.insertNode node).nodes.get? id = some found) :
    (id = node.id ∧ found = node) ∨ (id ≠ node.id ∧ records.nodes.get? id = some found) :=
  Table.get?_insert_cases present

theorem get?_insertObject_cases {ref other : ContentRef} {content found : Content}
    (present : (records.insertObject ref content).objects.get? other = some found) :
    (other = ref ∧ found = content) ∨ (other ≠ ref ∧ records.objects.get? other = some found) :=
  Table.get?_insert_cases present

theorem mem_childList_insertNode {node : Node} {id parent : NodeId} :
    id ∈ (records.insertNode node).childList parent ↔
      id ∈ records.childList parent ∨ (node.parent = some parent ∧ id = node.id) := by
  rw [childList_insertNode]
  split
  · rename_i above
    simp [above]
  · rename_i other
    simp [other]

theorem Linked.get?_insertNode_of_fresh (linked : Linked records) {node found : Node}
    {id : NodeId} (fresh : records.lastNode < node.id.val)
    (present : records.nodes.get? id = some found) :
    (records.insertNode node).nodes.get? id = some found :=
  Table.get?_insert_of_absent (linked.get?_fresh fresh) present

theorem Linked.get?_insertObject_of_fresh (linked : Linked records) {ref other : ContentRef}
    {content found : Content} (fresh : records.lastObject < ref.id.val)
    (present : records.objects.get? other = some found) :
    (records.insertObject ref content).objects.get? other = some found :=
  Table.get?_insert_of_absent (linked.object_fresh fresh) present

/-! ## Links and positions -/

theorem Linked.insertNode (linked : Linked records) {node : Node}
    (fresh : records.lastNode < node.id.val)
    (stored : ∀ id, node.parent = some id → ∃ above, records.nodes.get? id = some above)
    (wrapping : ∀ id, node.parent = some id → ∃ ref, node.content = some ref) :
    Linked (records.insertNode node) := by
  have kept {id : NodeId} {found : Node} (present : records.nodes.get? id = some found) :
      (records.insertNode node).nodes.get? id = some found :=
    linked.get?_insertNode_of_fresh fresh present
  refine
    { keyed := ?_, numbered := ?_, stored := ?_, rising := ?_, listed := ?_, owned := ?_,
      once := ?_, wrapping := ?_, addressed := linked.addressed, counted := linked.counted,
      positive := linked.positive }
  · intro id found present
    rcases get?_insertNode_cases present with ⟨rfl, rfl⟩ | ⟨_, present⟩
    · rfl
    · exact linked.keyed present
  · intro id found present
    rw [lastNode_insertNode records node fresh]
    rcases get?_insertNode_cases present with ⟨rfl, _⟩ | ⟨_, present⟩
    · exact Int.le_refl _
    · have bound := linked.numbered present
      omega
  · intro id found parent present above
    have stored_before : ∃ owner, records.nodes.get? parent = some owner := by
      rcases get?_insertNode_cases present with ⟨rfl, rfl⟩ | ⟨_, present⟩
      · exact stored parent above
      · exact linked.stored present above
    rcases stored_before with ⟨owner, owner_found⟩
    exact ⟨owner, kept owner_found⟩
  · intro id found parent present above
    rcases get?_insertNode_cases present with ⟨rfl, rfl⟩ | ⟨_, present⟩
    · rcases stored parent above with ⟨owner, owner_found⟩
      have bound := linked.numbered owner_found
      omega
    · exact linked.rising present above
  · intro id found parent present above
    rw [mem_childList_insertNode]
    rcases get?_insertNode_cases present with ⟨rfl, rfl⟩ | ⟨_, present⟩
    · exact .inr ⟨above, rfl⟩
    · exact .inl (linked.listed present above)
  · intro id parent member
    rcases mem_childList_insertNode.mp member with old | ⟨above, rfl⟩
    · rcases linked.owned old with ⟨child, child_found, below⟩
      exact ⟨child, kept child_found, below⟩
    · exact ⟨node, by simp, above⟩
  · intro parent
    rw [childList_insertNode]
    split
    · refine List.nodup_append.mpr ⟨linked.once parent, by simp, ?_⟩
      intro id member new new_mem
      rcases List.mem_singleton.mp new_mem with rfl
      rintro rfl
      rcases linked.owned member with ⟨child, child_found, _⟩
      rw [linked.get?_fresh fresh] at child_found
      cases child_found
    · exact linked.once parent
  · intro id found parent present above
    rcases get?_insertNode_cases present with ⟨rfl, rfl⟩ | ⟨_, present⟩
    · exact wrapping parent above
    · exact linked.wrapping present above

theorem Linked.insertObject (linked : Linked records) {ref : ContentRef} {content : Content}
    (fresh : records.lastObject < ref.id.val) (kind : content.kind = ref.kind) :
    Linked (records.insertObject ref content) where
  keyed := linked.keyed
  numbered := linked.numbered
  stored := linked.stored
  rising := linked.rising
  listed := linked.listed
  owned := linked.owned
  once := linked.once
  wrapping := linked.wrapping
  addressed := by
    intro other object found
    rw [lastObject_insertObject records ref content fresh]
    rcases get?_insertObject_cases found with ⟨rfl, rfl⟩ | ⟨_, old⟩
    · exact ⟨Int.le_refl _, kind⟩
    · rcases linked.addressed old with ⟨bound, same⟩
      exact ⟨by omega, same⟩
  counted := by
    have before := linked.counted
    rw [lastObject_insertObject records ref content fresh]
    omega
  positive := by
    intro other object found
    rcases get?_insertObject_cases found with ⟨rfl, _⟩ | ⟨_, old⟩
    · have before := linked.counted
      omega
    · exact linked.positive old

/-- Old children keep their positions when a node is added. -/
theorem positions_insertNode (linked : Linked records) {node : Node}
    (fresh : records.lastNode < node.id.val) (parent : NodeId) :
    (records.childList parent).map (records.insertNode node).position? =
      (records.childList parent).map records.position? := by
  apply List.map_congr_left
  intro id member
  rcases linked.owned member with ⟨child, child_found, _⟩
  have bound := linked.numbered child_found
  have differ : node.id ≠ id := by
    rintro rfl
    omega
  simp [position?, differ]

theorem Contiguous.insertNode (contiguous : Contiguous records) (linked : Linked records)
    {node : Node} (fresh : records.lastNode < node.id.val)
    (last : ∀ id, node.parent = some id → node.position = (records.childList id).length) :
    Contiguous (records.insertNode node) := by
  intro parent
  have positions := positions_insertNode linked fresh parent
  unfold ContiguousAt
  rw [childList_insertNode]
  split
  · rename_i above
    have new : (records.insertNode node).position? node.id = some node.position := by
      simp [position?]
    rw [List.map_append, positions, List.map_singleton, new, last parent above, List.length_append,
      List.length_singleton, List.range_succ, List.map_append, List.map_singleton]
    exact (contiguous parent).append (List.Perm.refl _)
  · rw [positions]
    exact contiguous parent

/-! ## Growth -/

/-- All that was stored before is stored unchanged; only the nodes that are open got new children,
and what is new has new numbers. -/
structure Grown (opened : NodeId → Prop) (before after : Records) : Prop where
  nodes : ∀ {id node}, before.nodes.get? id = some node → after.nodes.get? id = some node
  objects : ∀ {ref content}, before.objects.get? ref = some content →
    after.objects.get? ref = some content
  lists : ∀ {id node}, before.nodes.get? id = some node → ¬opened id →
    after.childList id = before.childList id
  newNodes : ∀ {id node}, after.nodes.get? id = some node →
    before.nodes.get? id = some node ∨ before.lastNode < id.val
  newObjects : ∀ {ref content}, after.objects.get? ref = some content →
    before.objects.get? ref = some content ∨ before.lastObject < ref.id.val
  lastNode_le : before.lastNode ≤ after.lastNode
  lastObject_le : before.lastObject ≤ after.lastObject

namespace Grown

variable {opened opened' : NodeId → Prop}

theorem refl : Grown opened records records where
  nodes found := found
  objects found := found
  lists _ _ := rfl
  newNodes found := .inl found
  newObjects found := .inl found
  lastNode_le := Int.le_refl _
  lastObject_le := Int.le_refl _

/-- The nodes that the second step opens have to be new or open in the whole. -/
theorem trans (first : Grown opened before middle) (second : Grown opened' middle after)
    (inner : ∀ id node, before.nodes.get? id = some node → opened' id → opened id) :
    Grown opened before after where
  nodes found := second.nodes (first.nodes found)
  objects found := second.objects (first.objects found)
  lists found closed := by
    rw [second.lists (first.nodes found) fun open' => closed (inner _ _ found open'),
      first.lists found closed]
  newNodes found := by
    rcases second.newNodes found with old | new
    · exact first.newNodes old
    · have grown := first.lastNode_le
      exact .inr (by omega)
  newObjects found := by
    rcases second.newObjects found with old | new
    · exact first.newObjects old
    · have grown := first.lastObject_le
      exact .inr (by omega)
  lastNode_le := Int.le_trans first.lastNode_le second.lastNode_le
  lastObject_le := Int.le_trans first.lastObject_le second.lastObject_le

theorem insertNode (linked : Linked records) {node : Node}
    (fresh : records.lastNode < node.id.val)
    (open_ : ∀ id, node.parent = some id → opened id) :
    Grown opened records (records.insertNode node) where
  nodes present := linked.get?_insertNode_of_fresh fresh present
  objects found := found
  lists {id found} present closed := by
    rw [childList_insertNode, if_neg]
    exact fun above => closed (open_ id above)
  newNodes {id found} present := by
    rcases get?_insertNode_cases present with ⟨rfl, _⟩ | ⟨_, old⟩
    · exact .inr fresh
    · exact .inl old
  newObjects found := .inl found
  lastNode_le := by
    rw [lastNode_insertNode records node fresh]
    omega
  lastObject_le := Int.le_refl _

theorem insertObject (linked : Linked records) {ref : ContentRef} {content : Content}
    (fresh : records.lastObject < ref.id.val) :
    Grown opened records (records.insertObject ref content) where
  nodes found := found
  objects found := linked.get?_insertObject_of_fresh fresh found
  lists _ _ := rfl
  newNodes found := .inl found
  newObjects {other object} found := by
    rcases get?_insertObject_cases found with ⟨rfl, _⟩ | ⟨_, old⟩
    · exact .inr fresh
    · exact .inl old
  lastNode_le := Int.le_refl _
  lastObject_le := by
    rw [lastObject_insertObject records ref content fresh]
    omega

end Grown

end RuleTree.Records
