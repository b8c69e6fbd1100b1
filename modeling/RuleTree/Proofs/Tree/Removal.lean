import RuleTree.Proofs.Tree.Subtree

/-!
# Removing a subtree

A removal takes away a node with everything below it and the entry for the node in the list of its
parent, and nothing else (`Records.Pruned`).  What is left is linked; the positions are still
contiguous except among the former siblings.
-/

namespace RuleTree.Records

variable {before after records : Records} {root : NodeId}

/-- One node lies below another or is the same. -/
def Within (records : Records) : NodeId → NodeId → Prop :=
  Relation.ReflTransGen records.ChildOf

theorem childList_erase (nodes : Table NodeId Node) (id parent : NodeId) :
    childList { records with nodes := nodes, children := records.children.erase id } parent =
      if id = parent then [] else records.childList parent := by
  unfold childList
  simp only [Table.get?_erase]
  split <;> rfl

/-- A removal visits a set of nodes that contains what it was given, is closed under children and
holds nothing besides. -/
theorem removeBelow_spec (records : Records) (work : List NodeId) :
    ∃ gone : List NodeId,
      (∀ id, (records.removeBelow work).nodes.get? id =
        if id ∈ gone then none else records.nodes.get? id) ∧
      (∀ id, (records.removeBelow work).children.get? id =
        if id ∈ gone then none else records.children.get? id) ∧
      (records.removeBelow work).objects = records.objects ∧
      (records.removeBelow work).lastNode = records.lastNode ∧
      (records.removeBelow work).lastObject = records.lastObject ∧
      work ⊆ gone ∧
      (∀ id ∈ gone, ∀ child ∈ records.childList id, child ∈ gone) ∧
      ∀ id ∈ gone, ∃ start ∈ work, records.Within start id := by
  fun_induction removeBelow records work with
  | case1 records => exact ⟨[], by simp⟩
  | case2 records id rest remaining ih =>
      rcases ih with ⟨gone, nodes, lists, objects, lastNode, lastObject, visited, closed, grounded⟩
      have list (parent : NodeId) : remaining.childList parent =
          if id = parent then [] else records.childList parent :=
        childList_erase _ id parent
      refine ⟨id :: gone, ?_, ?_, objects, lastNode, lastObject, ?_, ?_, ?_⟩
      · intro other
        rw [nodes]
        by_cases same : id = other
        · simp [same, remaining]
        · by_cases member : other ∈ gone
          · simp [member]
          · simp [member, Ne.symm same, same, remaining]
      · intro other
        rw [lists]
        by_cases same : id = other
        · simp [same, remaining]
        · by_cases member : other ∈ gone
          · simp [member]
          · simp [member, Ne.symm same, same, remaining]
      · intro other member
        rcases List.mem_cons.mp member with rfl | member
        · simp
        · exact List.mem_cons_of_mem _ (visited (List.mem_append_right _ member))
      · intro other member child child_mem
        by_cases same : other = id
        · subst same
          exact List.mem_cons_of_mem _ (visited (List.mem_append_left _ child_mem))
        · have inside := (List.mem_cons.mp member).resolve_left same
          refine List.mem_cons_of_mem _ (closed other inside child ?_)
          rw [list, if_neg (Ne.symm same)]
          exact child_mem
      · intro other member
        rcases List.mem_cons.mp member with rfl | member
        · exact ⟨other, by simp, .refl⟩
        · rcases grounded other member with ⟨start, start_mem, path⟩
          have path : records.Within start other := by
            refine Relation.ReflTransGen.mono ?_ _ _ path
            intro parent child child_mem
            unfold ChildOf at child_mem ⊢
            rw [list] at child_mem
            split at child_mem
            · cases child_mem
            · exact child_mem
          rcases List.mem_append.mp start_mem with child | later
          · exact ⟨id, by simp, .head child path⟩
          · exact ⟨start, by simp [later], path⟩

/-- A node and everything below it is gone, and so is its entry among the children of its parent;
all the rest is as it was. -/
structure Pruned (root : NodeId) (before after : Records) : Prop where
  gone : ∀ {id}, before.Within root id → after.nodes.get? id = none ∧ after.childList id = []
  kept : ∀ {id}, ¬before.Within root id → after.nodes.get? id = before.nodes.get? id ∧
    after.childList id = (before.childList id).filter (· ≠ root)
  cleared : ∀ {id}, before.Within root id → after.children.get? id = none
  lists : ∀ {id}, ¬before.Within root id → root ∉ before.childList id →
    after.children.get? id = before.children.get? id
  objects : after.objects = before.objects
  lastNode : after.lastNode = before.lastNode
  lastObject : after.lastObject = before.lastObject

/-- Records in which a node is taken off the list of its parent. -/
def detach (records : Records) (root : NodeId) (node : Node) : Records :=
  { records with
    children :=
      match node.parent with
      | some parent =>
        match records.children.get? parent with
        | some siblings => records.children.insert parent (siblings.filter (· ≠ root))
        | none => records.children
      | none => records.children }

/-- Only the list of the parent changes. -/
theorem children_detach {node : Node} {id : NodeId} (unlisted : root ∉ before.childList id) :
    (before.detach root node).children.get? id = before.children.get? id := by
  unfold detach
  cases above : node.parent with
  | none => rfl
  | some owner =>
      cases siblings : before.children.get? owner with
      | none => simp [siblings]
      | some ids =>
          by_cases same : owner = id
          · subst same
            have others : ∀ other ∈ ids, other ≠ root := by
              rintro other member rfl
              exact unlisted (by simpa [childList, siblings] using member)
            simpa [siblings] using others
          · simp [siblings, same]

/-- Taking a node off the list of its parent takes it off all lists. -/
theorem Linked.childList_detach (linked : Linked before) {node : Node}
    (stored : before.nodes.get? root = some node) (parent : NodeId) :
    (before.detach root node).childList parent = (before.childList parent).filter (· ≠ root) := by
  have unlisted : ∀ other, node.parent ≠ some other →
      (before.childList other).filter (· ≠ root) = before.childList other := by
    intro other differ
    refine List.filter_eq_self.mpr fun id member => ?_
    have not_root : id ≠ root := by
      rintro rfl
      rcases linked.owned member with ⟨child, found, above⟩
      rw [stored] at found
      rcases Option.some.inj found with rfl
      exact differ above
    simpa using not_root
  unfold detach
  cases above : node.parent with
  | none => exact (unlisted parent (by simp [above])).symm
  | some owner =>
      cases siblings : before.children.get? owner with
      | none =>
          have member := linked.listed stored above
          simp [childList, siblings] at member
      | some ids =>
          by_cases same : owner = parent
          · subst same
            simp [childList, siblings]
          · rw [unlisted parent (by simpa [above] using same)]
            simp [childList, siblings, same]

theorem Linked.removeSubtree_eq (linked : Linked before) {node : Node}
    (stored : before.nodes.get? root = some node) :
    ∃ after, before.removeSubtree root = .ok after ∧ Pruned root before after := by
  have detached := linked.childList_detach stored
  have start_lists (id : NodeId) (unlisted : root ∉ before.childList id) :
      (before.detach root node).children.get? id = before.children.get? id :=
    children_detach unlisted
  have start_nodes : (before.detach root node).nodes = before.nodes := rfl
  have start_objects : (before.detach root node).objects = before.objects := rfl
  have start_lastNode : (before.detach root node).lastNode = before.lastNode := rfl
  have start_lastObject : (before.detach root node).lastObject = before.lastObject := rfl
  have removed :
      before.removeSubtree root = .ok ((before.detach root node).removeBelow [root]) := by
    unfold removeSubtree
    rw [stored]
    rfl
  generalize before.detach root node = start at *
  rcases removeBelow_spec start [root] with
    ⟨gone, nodes, tables, objects, lastNode, lastObject, visited, closed, grounded⟩
  have lists (id : NodeId) : (start.removeBelow [root]).childList id =
      if id ∈ gone then [] else start.childList id := by
    unfold childList
    rw [tables]
    split <;> rfl
  -- The nodes that the removal visits are those within the subtree.
  have mem_gone (id : NodeId) : id ∈ gone ↔ before.Within root id := by
    constructor
    · intro member
      rcases grounded id member with ⟨first, first_mem, path⟩
      rcases List.mem_singleton.mp first_mem with rfl
      refine Relation.ReflTransGen.mono ?_ _ _ path
      intro parent child child_mem
      unfold ChildOf at child_mem ⊢
      rw [detached] at child_mem
      exact (List.mem_filter.mp child_mem).1
    · intro path
      induction path with
      | refl => exact visited (by simp)
      | @tail parent child path child_mem ih =>
          refine closed parent ih child ?_
          rw [detached]
          refine List.mem_filter.mpr ⟨child_mem, ?_⟩
          have not_root : child ≠ root := by
            rintro rfl
            have back := linked.le_of_reflTransGen path
            have rising := linked.owner_lt child_mem
            omega
          simpa using not_root
  refine ⟨_, removed,
    { gone := ?_, kept := ?_, cleared := ?_, lists := ?_
      objects := objects.trans start_objects, lastNode := lastNode.trans start_lastNode
      lastObject := lastObject.trans start_lastObject }⟩
  · intro id within
    rw [nodes, lists, if_pos ((mem_gone id).mpr within), if_pos ((mem_gone id).mpr within)]
    exact ⟨rfl, rfl⟩
  · intro id outside
    have not_gone : id ∉ gone := fun member => outside ((mem_gone id).mp member)
    rw [nodes, lists, if_neg not_gone, if_neg not_gone, detached, start_nodes]
    exact ⟨rfl, rfl⟩
  · intro id within
    rw [tables, if_pos ((mem_gone id).mpr within)]
  · intro id outside unlisted
    rw [tables, if_neg fun member => outside ((mem_gone id).mp member), start_lists id unlisted]

namespace Pruned

theorem get?_eq_some (pruned : Pruned root before after) {id : NodeId} {node : Node} :
    after.nodes.get? id = some node ↔
      before.nodes.get? id = some node ∧ ¬before.Within root id := by
  by_cases within : before.Within root id
  · rw [(pruned.gone within).1]
    simp [within]
  · rw [(pruned.kept within).1]
    simp [within]

theorem mem_childList (pruned : Pruned root before after) {id parent : NodeId} :
    id ∈ after.childList parent ↔
      id ∈ before.childList parent ∧ ¬before.Within root parent ∧ id ≠ root := by
  by_cases within : before.Within root parent
  · rw [(pruned.gone within).2]
    simp [within]
  · rw [(pruned.kept within).2, List.mem_filter]
    simp [within]

theorem position? (pruned : Pruned root before after) {id : NodeId}
    (outside : ¬before.Within root id) : after.position? id = before.position? id := by
  unfold Records.position?
  rw [(pruned.kept outside).1]

/-- A child lies within a subtree exactly if its parent does, unless it is the root of it. -/
theorem within_child (linked : Linked before) {id parent : NodeId}
    (child : id ∈ before.childList parent) (other : id ≠ root) :
    before.Within root id ↔ before.Within root parent := by
  constructor
  · intro path
    rcases Relation.ReflTransGen.cases_tail path with same | ⟨middle, path, child'⟩
    · exact absurd same other
    · rcases linked.owner_unique child child' with rfl
      exact path
  · intro path
    exact path.tail child

theorem linked (pruned : Pruned root before after) (linked : Linked before) : Linked after where
  keyed found := linked.keyed (pruned.get?_eq_some.mp found).1
  numbered found := by
    rw [pruned.lastNode]
    exact linked.numbered (pruned.get?_eq_some.mp found).1
  stored {id node parent} found above := by
    rcases pruned.get?_eq_some.mp found with ⟨found, outside⟩
    rcases linked.stored found above with ⟨owner, owner_found⟩
    refine ⟨owner, pruned.get?_eq_some.mpr ⟨owner_found, fun within => outside ?_⟩⟩
    exact within.tail (linked.listed found above)
  rising found above := linked.rising (pruned.get?_eq_some.mp found).1 above
  listed {id node parent} found above := by
    rcases pruned.get?_eq_some.mp found with ⟨found, outside⟩
    have member := linked.listed found above
    refine pruned.mem_childList.mpr ⟨member, fun within => outside (within.tail member), ?_⟩
    rintro rfl
    exact outside .refl
  owned {id parent} member := by
    rcases pruned.mem_childList.mp member with ⟨member, outside, other⟩
    rcases linked.owned member with ⟨node, found, above⟩
    refine ⟨node, pruned.get?_eq_some.mpr ⟨found, fun within => outside ?_⟩, above⟩
    exact (within_child linked member other).mp within
  once parent := by
    by_cases within : before.Within root parent
    · rw [(pruned.gone within).2]
      exact List.nodup_nil
    · rw [(pruned.kept within).2]
      exact (linked.once parent).filter _
  wrapping found above := linked.wrapping (pruned.get?_eq_some.mp found).1 above
  addressed found := by
    rw [pruned.lastObject]
    rw [pruned.objects] at found
    exact linked.addressed found
  counted := by
    rw [pruned.lastObject]
    exact linked.counted
  positive found := by
    rw [pruned.objects] at found
    exact linked.positive found

/-- Only the siblings of the node that went may need new positions. -/
theorem contiguousAt (pruned : Pruned root before after) (linked : Linked before)
    {parent : NodeId} (contiguous : before.ContiguousAt parent)
    (unrelated : root ∉ before.childList parent) : after.ContiguousAt parent := by
  by_cases within : before.Within root parent
  · unfold ContiguousAt
    rw [(pruned.gone within).2]
    exact List.Perm.refl _
  · apply contiguous.congr
    · rw [(pruned.kept within).2]
      refine List.filter_eq_self.mpr fun id member => ?_
      have other : id ≠ root := by
        rintro rfl
        exact unrelated member
      simpa using other
    · intro id member
      apply pruned.position?
      rintro path
      have other : id ≠ root := by
        rintro rfl
        exact unrelated member
      exact within ((within_child linked member other).mp path)

end Pruned

end RuleTree.Records
