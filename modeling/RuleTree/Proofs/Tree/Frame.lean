import RuleTree.Proofs.Evaluation.Renaming
import RuleTree.Proofs.Tree.Copies
import RuleTree.Proofs.Tree.Uprooting

/-!
# Trees that an edit leaves alone

What a tree consists of is its nodes with their children in order, the objects that they wrap, and
the definitions that its variables name, wherever these are (`Records.Untouched`).  A tree is
untouched by everything that only adds records and extends no node of it, by a new order of children
elsewhere, and by the deletion of a part of another tree that is separate from it
(`Records.Separate`): what both trees name besides stays where it is as long as one of them is left.
-/

namespace RuleTree

open Step Store

namespace Records

variable {before middle after records : Records}

/-- All that a tree consists of is as it was. -/
structure Untouched (root : NodeId) (before after : Records) : Prop where
  nodes : ∀ {id}, before.Within root id → after.nodes.get? id = before.nodes.get? id
  children : ∀ {id}, before.Within root id → after.orderedChildren id = before.orderedChildren id
  objects : ∀ {ref}, before.Referenced root ref → after.objects.get? ref = before.objects.get? ref
  definitions : ∀ {definition}, before.Names root definition →
    after.objects.get? ⟨.definition, definition⟩ = before.objects.get? ⟨.definition, definition⟩

/-- Children that are stored as they were have the order that they had. -/
theorem Untouched.of_lists {root : NodeId} (tidy : Tidy before)
    (nodes : ∀ {id}, before.Within root id → after.nodes.get? id = before.nodes.get? id)
    (lists : ∀ {id}, before.Within root id → after.childList id = before.childList id)
    (objects : ∀ {ref}, before.Referenced root ref →
      after.objects.get? ref = before.objects.get? ref)
    (definitions : ∀ {definition}, before.Names root definition →
      after.objects.get? ⟨.definition, definition⟩ =
        before.objects.get? ⟨.definition, definition⟩) : Untouched root before after where
  nodes := nodes
  children {id} within := by
    apply (tidy.contiguous id).orderedChildren_congr (lists within)
    intro child listed
    unfold position?
    rw [nodes (within.tail listed)]
  objects := objects
  definitions := definitions

/-- Nothing that is stored changes as records are added, unless a node of the tree is extended. -/
theorem Grown.untouched {opened : NodeId → Prop} (grown : Grown opened before after)
    (tidy : Tidy before) (complete : Complete before) {root : Node}
    (stored : before.nodes.get? root.id = some root)
    (closed : ∀ {id}, before.Within root.id id → ¬opened id) :
    Untouched root.id before after := by
  apply Untouched.of_lists tidy
  · intro id within
    rcases tidy.linked.within_stored ⟨root, stored⟩ within with ⟨node, found⟩
    rw [found, grown.nodes found]
  · intro id within
    rcases tidy.linked.within_stored ⟨root, stored⟩ within with ⟨node, found⟩
    exact grown.lists found (closed within)
  · rintro ref ⟨id, node, _, found, wraps⟩
    rcases complete.contents found wraps with ⟨content, object⟩
    rw [object, grown.objects object]
  · rintro definition ⟨use, _, found⟩
    rcases complete.definitions found with ⟨content, object⟩
    rw [object, grown.objects object]

/-- A tree and the part of another tree that lies below a node have no object in common, and no
variable of the first names a definition that is wrapped in the second. -/
structure Separate (records : Records) (root id : NodeId) : Prop where
  outside : ¬records.Within root id
  unshared : ∀ {ref}, records.Referenced root ref → ¬records.Referenced id ref
  unnamed : ∀ {definition}, records.Names root definition →
    ¬records.Referenced id ⟨.definition, definition⟩

section Apart

variable {root id other parent : NodeId} (linked : Linked records)
  (top : ∀ other, root ∉ records.childList other)

include linked top

/-- Whoever has a child in a whole tree lies in the tree. -/
theorem within_parent (listed : other ∈ records.childList parent)
    (within : records.Within root other) : records.Within root parent := by
  refine (Pruned.within_child linked listed ?_).mp within
  rintro rfl
  exact top parent listed

/-- Nothing below a node outside of a whole tree lies in the tree. -/
theorem not_within_below (outside : ¬records.Within root id) (below : records.Within id other) :
    ¬records.Within root other := by
  induction below with
  | refl => exact outside
  | tail _ listed ih => exact fun within => ih (within_parent linked top listed within)

end Apart

/-- A deletion frees no object of a tree that is separate and no definition that the tree names. -/
theorem Separate.not_freed {root id : NodeId} (separate : Separate records root id)
    {ref : ContentRef} (needed : records.Referenced root ref ∨
      ∃ definition, records.Names root definition ∧ ref = ⟨.definition, definition⟩) :
    ¬records.Freed id ref := by
  intro freed
  rcases needed with ⟨holder, node, _, found, wraps⟩ | ⟨definition, ⟨use, referenced, named⟩, rfl⟩
  · exact freed.unwrapped found wraps
  · exact separate.unshared referenced (freed.only_there named)

/-- New positions for the children of a node of another tree. -/
theorem Reordered.untouched {root id : NodeId} (reordered : Reordered id before after)
    (tidy : Tidy before) (top : ∀ other, root ∉ before.childList other)
    (outside : ¬before.Within root id) : Untouched root before after := by
  have moved := reordered
  rcases moved with ⟨ordered, _, moved⟩
  apply Untouched.of_lists tidy
  · intro other within
    apply reordered.kept
    exact fun listed => outside (within_parent tidy.linked top listed within)
  · exact fun _ => moved.childList _
  · exact fun _ => by rw [moved.objects]
  · exact fun _ => by rw [moved.objects]

/-- The deletion of a part of another tree. -/
theorem Stages.untouched {root : NodeId} {node : Node} {objects : Table ContentRef Content}
    (stages : Stages node.id node.parent before objects middle after) (tidy : Tidy before)
    (top : ∀ other, root ∉ before.childList other) (separate : Separate before root node.id)
    (stored : before.nodes.get? node.id = some node) : Untouched root before after := by
  have linked := tidy.linked
  have pruned := stages.pruned
  have outside {id : NodeId} (within : before.Within root id) :
      ¬Within { before with objects } node.id id :=
    fun below => not_within_below linked top separate.outside below within
  have unlisted {id : NodeId} (within : before.Within root id) : node.id ∉ before.childList id :=
    fun listed => separate.outside (within.tail listed)
  have objects_kept {ref : ContentRef} (unshared : ¬before.Referenced node.id ref)
      (not_freed : ¬before.Freed node.id ref) :
      after.objects.get? ref = before.objects.get? ref := by
    rcases stages.moved with ⟨place, moved⟩
    rw [moved.objects, pruned.objects]
    exact stages.kept unshared not_freed
  apply Untouched.of_lists tidy
  · intro id within
    rw [← (pruned.kept (outside within)).1]
    cases above : node.parent with
    | none => rw [stages.alone above]
    | some parent =>
        -- The siblings of the node lie in its tree and not in the other.
        apply (stages.siblings above).kept
        intro sibling
        have listed : id ∈ before.childList parent := (pruned.mem_childList.mp sibling).1
        have inside := within_parent linked top listed within
        exact unlisted inside (linked.listed stored above)
  · intro id within
    rcases stages.moved with ⟨place, moved⟩
    rw [moved.childList, (pruned.kept (outside within)).2]
    refine List.filter_eq_self.mpr fun child listed => ?_
    have other : child ≠ node.id := by
      rintro rfl
      exact unlisted within listed
    simpa using other
  · intro ref referenced
    exact objects_kept (separate.unshared referenced) (separate.not_freed (.inl referenced))
  · intro definition named
    exact objects_kept (separate.unnamed named) (separate.not_freed (.inr ⟨_, named, rfl⟩))

end Records

/-! ## Edits that only add -/

namespace Tree

open Records

variable {store after : Store}

theorem grown_attachChild {parent : NodeId} {content : ContentRef} {node : Node}
    (linked : Linked store.records) (done : attachChild parent content store = (.ok node, after)) :
    Grown (· = parent) store.records after.records := by
  rcases bind_eq_ok.mp done with ⟨siblings, middle, loaded, done⟩
  rcases fetch_eq_ok.mp loaded with ⟨_, rfl⟩
  rcases saveNode_eq_ok.mp done with ⟨records, saved, rfl⟩
  rcases Records.saveNode_eq_ok.mp saved with ⟨_, _, rfl, rfl⟩
  apply Grown.insertNode linked
  · exact Int.lt_add_one_of_le (Int.le_refl store.records.lastNode)
  · rintro id ⟨⟩
    rfl

theorem grown_addChild {parent : NodeId} {content : Content} {node : Node}
    (tidy : Tidy store.records) (done : addChild parent content store = (.ok node, after)) :
    Grown (· = parent) store.records after.records := by
  replace done := transaction_eq_ok.mp done
  rcases bind_eq_ok.mp done with ⟨ref, middle, saved, done⟩
  rcases saveObject_eq_ok.mp saved with ⟨rfl, rfl⟩
  have first : Grown (· = parent) store.records (store.records.saveObject content).2 := by
    apply Grown.insertObject tidy.linked
    exact Int.lt_add_one_of_le (Int.le_refl store.records.lastObject)
  exact first.trans (grown_attachChild (tidy.saveObject content).linked done) fun _ _ _ same => same

theorem grown_cloneTree {node copy : Node} (tidy : Tidy store.records)
    (done : cloneTree node store = (.ok copy, after)) :
    Grown (fun _ => False) store.records after.records := by
  rcases cloneTree_spec tidy.linked done with ⟨root, rest, copies, made, middle, passes⟩
  rcases passes.copying tidy with ⟨copied, copying⟩
  exact copying.grown

end Tree

end RuleTree
