import RuleTree.Proofs.Creation.Building
import RuleTree.Proofs.Evaluation.Created
import RuleTree.Proofs.Tree.Frame
import Mathlib

/-!
# Trees are isolated

Evaluating a tree and writing it as a document read nothing but what the tree consists of, so that
both give the same in two stores that agree on the tree (`Records.Untouched.interpret_eq`,
`Records.Untouched.build_eq`).  Edits below a node of another tree, copies, creations and imports
leave the tree untouched; so its values, its errors, the bindings that its evaluation leaves and its
document do not change (`Reachable.trees_isolated`).
-/

namespace RuleTree

open Step Store Records

/-! ## Reading what is untouched -/

namespace Reading

variable {before after : Records} {root : NodeId}

theorem alike_fetch {α : Type} (answer : Except StoreError α) :
    Alike Eq (fun value value' => value = value' ∧ answer = .ok value) (fetch answer)
      (fetch answer) := by
  rintro reading _ rfl
  cases answer with
  | ok value => exact ⟨rfl, .ok ⟨rfl, rfl⟩⟩
  | error cause => exact ⟨rfl, .error _⟩

theorem alike_directNodes {ids : List NodeId}
    (same : ∀ id ∈ ids, after.nodes.get? id = before.nodes.get? id) :
    Alike Eq (fun nodes nodes' => nodes = nodes' ∧
        ∀ node ∈ nodes, ∃ id ∈ ids, before.nodes.get? id = some node)
      (directNodes before ids) (directNodes after ids) := by
  induction ids with
  | nil => exact .pure ⟨rfl, by simp⟩
  | cons id rest ih =>
      have first : after.node id = before.node id := by
        unfold Records.node
        rw [same id (by simp)]
      unfold directNodes
      rw [first]
      refine (alike_fetch (before.node id)).bind ?_
      rintro node _ ⟨rfl, found⟩
      refine (ih fun other member => same other (by simp [member])).bind ?_
      rintro nodes _ ⟨rfl, found_rest⟩
      refine .pure ⟨rfl, ?_⟩
      simp only [List.forall_mem_cons, List.exists_mem_cons_iff]
      exact ⟨.inl (node_eq_ok.mp found), fun other member => .inr (found_rest other member)⟩

theorem alike_content_untouched {node : Node} (untouched : Untouched root before after)
    (stored : before.nodes.get? node.id = some node) (within : before.Within root node.id) :
    Alike Eq (fun content content' => content = content' ∧
        ∀ definition, content = some (.use definition) → before.Names root definition)
      (content before .direct node) (content after .direct node) := by
  cases wraps : node.content with
  | none =>
      simp only [content, wraps]
      exact .pure ⟨rfl, by simp⟩
  | some ref =>
      have referenced : before.Referenced root ref := ⟨node.id, node, within, stored, wraps⟩
      have same : after.object ref = before.object ref := by
        unfold Records.object
        rw [untouched.objects referenced]
      simp only [content, wraps, same, map_eq_pure_bind]
      refine (alike_fetch (before.object ref)).bind ?_
      rintro content _ ⟨rfl, found⟩
      refine .pure ⟨rfl, ?_⟩
      rintro definition ⟨⟩
      exact ⟨ref, referenced, object_eq_ok.mp found⟩

theorem alike_children_untouched {node : Node} (linked : Linked before)
    (untouched : Untouched root before after) (within : before.Within root node.id) :
    Alike Eq (fun nodes nodes' => nodes = nodes' ∧ ∀ child ∈ nodes,
        before.nodes.get? child.id = some child ∧ child.id ∈ before.orderedChildren node.id)
      (children before .direct node) (children after .direct node) := by
  have same : after.childrenOf node.id = before.childrenOf node.id := by
    unfold childrenOf Table.contains
    rw [untouched.nodes within, untouched.children within]
  simp only [children, directChildren, same]
  refine (alike_fetch (before.childrenOf node.id)).bind ?_
  rintro ids _ ⟨rfl, listed⟩
  rcases childrenOf_eq_ok.mp listed with ⟨_, rfl⟩
  have below {id : NodeId} (member : id ∈ before.orderedChildren node.id) :
      before.Within root id := within.tail (mem_orderedChildren.mp member)
  refine (alike_directNodes fun id member => untouched.nodes (below member)).imp ?_
  rintro nodes _ ⟨rfl, found⟩
  refine ⟨rfl, fun child member => ?_⟩
  rcases found child member with ⟨id, id_mem, found⟩
  rcases linked.keyed found with rfl
  exact ⟨found, id_mem⟩

/-- Two stores that agree on a tree give the same answers about it. -/
theorem interchangeable_untouched (linked : Linked before) (linked' : Linked after)
    (untouched : Untouched root before after) :
    Interchangeable before .direct after .direct Eq
      (fun depth depth' node => before.nodes.get? node.id = some node ∧
        before.Within root node.id ∧ before.listsBelow node.id < depth ∧
          after.listsBelow node.id < depth')
      (before.Names root) where
  ends := by
    rintro depth depth' node ⟨_, _, shallow, shallow'⟩
    omega
  content := by
    rintro depth depth' node ⟨stored, within, _, _⟩
    exact alike_content_untouched untouched stored within
  children := by
    rintro depth depth' node ⟨stored, within, shallow, shallow'⟩
    refine (alike_children_untouched linked untouched within).imp ?_
    rintro nodes _ ⟨rfl, found⟩
    refine ⟨rfl, fun child member => ?_⟩
    rcases found child member with ⟨child_stored, listed⟩
    have listed' : child.id ∈ after.orderedChildren node.id := by
      rw [untouched.children within]
      exact listed
    exact ⟨child_stored, within.tail (mem_orderedChildren.mp listed),
      Evaluation.shallow_child linked shallow listed,
      Evaluation.shallow_child linked' shallow' listed'⟩
  definition := by
    intro definition named
    have same : after.object ⟨.definition, definition⟩ =
        before.object ⟨.definition, definition⟩ := by
      unfold Records.object
      rw [untouched.definitions named]
    simp only [object, same]
    exact (alike_fetch _).imp fun _ _ agree => agree.1

end Reading

namespace Records.Untouched

variable {before after : Records} {root : Node}

theorem within (untouched : Untouched root.id before after) {id : NodeId}
    (path : after.Within root.id id) : before.Within root.id id := by
  induction path with
  | refl => exact .refl
  | tail _ listed ih =>
      have member := mem_orderedChildren.mpr listed
      rw [untouched.children ih] at member
      exact ih.tail (mem_orderedChildren.mp member)

/-- What the tree needs is still there. -/
theorem sound (untouched : Untouched root.id before after) (sound : Reading.Sound before root) :
    Reading.Sound after root where
  stored := (untouched.nodes .refl).trans sound.stored
  supplied := by
    intro id path node ref found wraps
    have within := untouched.within path
    rw [untouched.nodes within] at found
    have referenced : before.Referenced root.id ref := ⟨id, node, within, found, wraps⟩
    rcases sound.supplied id within node ref found wraps with ⟨content, object, defined⟩
    refine ⟨content, (untouched.objects referenced).trans object, ?_⟩
    rintro definition rfl
    rw [untouched.definitions ⟨ref, referenced, object⟩]
    exact defined definition rfl

section Meaning

variable (untouched : Untouched root.id before after) (tidy : Tidy before) (tidy' : Tidy after)
  (needed : Reading.Sound before root)

include untouched tidy tidy' needed

/-- The tree has the same value or fails in the same way, and it leaves the same context. -/
theorem interpret_eq [Host] (context : Context) :
    (interpret after root context).1 = (interpret before root context).1 ∧
      (interpret after root context).2.1 = (interpret before root context).2.1 := by
  have same := Reading.interchangeable_untouched tidy.linked tidy'.linked untouched
  rcases same.alike_node inseparable_eq ⟨needed.stored, .refl, listsBelow_lt_depthBound _,
    listsBelow_lt_depthBound _⟩ ⟨Reading.start, context⟩ ⟨Reading.start, context⟩ ⟨rfl, rfl⟩ with
    ⟨⟨_, left⟩, values⟩
  rcases interpret_direct tidy needed context with ⟨value_before, context_before⟩
  rcases interpret_direct tidy' (untouched.sound needed) context with
    ⟨value_after, context_after⟩
  exact ⟨value_after.trans ((values.eq fun _ _ agree => agree).symm.trans value_before.symm),
    context_after.trans (left.symm.trans context_before.symm)⟩

/-- The tree has the same document, or it cannot be written for the same reason. -/
theorem build_eq (access : Access) (ids : Bool) :
    (Block.build after access ids root Reading.start).1 =
      (Block.build before access ids root Reading.start).1 := by
  have same := Reading.interchangeable_untouched tidy.linked tidy'.linked untouched
  have shallow : before.listsBelow root.id < before.depthBound := listsBelow_lt_depthBound _
  have shallow' : after.listsBelow root.id < after.depthBound := listsBelow_lt_depthBound _
  have direct : Block.build before .direct ids root = Block.build after .direct ids root :=
    (same.alike_build ids ⟨needed.stored, .refl, shallow, shallow'⟩
      ⟨needed.stored, .refl, Nat.lt_succ_of_lt shallow, Nat.lt_succ_of_lt shallow'⟩).eq
  cases access with
  | direct => rw [direct]
  | cached =>
      rcases Block.alike_build tidy ids needed Reading.start Reading.start
        Snapshot.faithful_empty with ⟨_, texts⟩
      rcases Block.alike_build tidy' ids (untouched.sound needed) Reading.start Reading.start
        Snapshot.faithful_empty with ⟨_, texts'⟩
      rw [texts.eq fun _ _ agree => agree, texts'.eq fun _ _ agree => agree, direct]

end Meaning

end Records.Untouched

/-! ## Edits elsewhere -/

/-- What can be observed of a tree is as it was: its node, its value in every context and the
context that its evaluation leaves, whichever way it is read, and its document. -/
structure Undisturbed [Host] (root : Node) (before after : Records) : Prop where
  stored : after.nodes.get? root.id = some root
  value : ∀ context, (interpret after root context).1 = (interpret before root context).1
  context : ∀ context, (interpret after root context).2.1 = (interpret before root context).2.1
  document : ∀ access ids, (Block.build after access ids root Reading.start).1 =
    (Block.build before access ids root Reading.start).1

/-- The successful edits that are not made in the tree of a root: deletions of what is separate from
it, extensions and moves below nodes of other trees, copies of any tree, and new trees from sketches
that give no numbers of objects. -/
inductive Elsewhere (root : Node) (store : Store) : Store → Prop where
  | deleteTree {node : Node} {after : Store} : Separate store.records root.id node.id →
      store.records.nodes.get? node.id = some node →
        Tree.deleteTree node store = (.ok (), after) → Elsewhere root store after
  | addChild {parent : NodeId} {content : Content} {child : Node} {after : Store} :
      ¬store.records.Within root.id parent →
        Tree.addChild parent content store = (.ok child, after) → Elsewhere root store after
  | attachChild {parent : NodeId} {content : ContentRef} {child : Node} {after : Store} :
      ¬store.records.Within root.id parent →
        Tree.attachChild parent content store = (.ok child, after) → Elsewhere root store after
  | moveChild {parent child : NodeId} {index : Nat} {after : Store} :
      ¬store.records.Within root.id parent →
        Tree.moveChild parent child index store = (.ok (), after) → Elsewhere root store after
  | cloneTree {node copy : Node} {after : Store} :
      store.records.nodes.get? node.id = some node →
        Tree.cloneTree node store = (.ok copy, after) → Elsewhere root store after
  | create {functions : Option Library} {tree : Sketch} {version : Option Version} {new : Node}
      {after : Store} : (∀ part ∈ tree.walk, part.get? "object_id" = none) →
        Creation.create functions tree version store = (.ok new, after) →
          Elsewhere root store after
  | importDocument {functions : Option Library} {document : String} {version : Option Version}
      {new : Node} {after : Store} :
        Creation.importDocument functions document version store = (.ok new, after) →
          Elsewhere root store after

namespace Elsewhere

variable {store after : Store} {root : Node}

theorem tidy (edit : Elsewhere root store after) (tidy : Tidy store.records) :
    Tidy after.records := by
  cases edit with
  | deleteTree _ stored done => exact Tree.tidy_deleteTree tidy stored done
  | addChild _ done => exact Tree.tidy_addChild tidy done
  | attachChild _ done => exact Tree.tidy_attachChild tidy done
  | moveChild _ done => exact Tree.tidy_moveChild tidy done
  | cloneTree stored done => exact Tree.tidy_cloneTree tidy stored done
  | create _ done => exact Creation.tidy_create tidy done
  | importDocument done => exact Creation.tidy_importDocument tidy done

theorem untouched (edit : Elsewhere root store after) (tidy : Tidy store.records)
    (complete : Complete store.records) (stored : store.records.nodes.get? root.id = some root)
    (alone : root.parent = none) : Untouched root.id store.records after.records := by
  have linked := tidy.linked
  have top := linked.unlisted stored alone
  have beside {parent : NodeId} (outside : ¬store.records.Within root.id parent)
      (grown : Grown (· = parent) store.records after.records) :
      Untouched root.id store.records after.records := by
    apply grown.untouched tidy complete stored
    rintro id within rfl
    exact outside within
  have apart (grown : Grown (fun _ => False) store.records after.records) :
      Untouched root.id store.records after.records :=
    grown.untouched tidy complete stored fun _ => not_false
  cases edit with
  | deleteTree separate stored done =>
      rcases Tree.deleteTree_stages linked done with ⟨objects, middle, stages⟩
      exact stages.untouched tidy top separate stored
  | addChild outside done => exact beside outside (Tree.grown_addChild tidy done)
  | attachChild outside done => exact beside outside (Tree.grown_attachChild linked done)
  | moveChild outside done =>
      exact (Tree.reordered_moveChild linked done).untouched tidy top outside
  | cloneTree _ done => exact apart (Tree.grown_cloneTree tidy done)
  | create plain done =>
      rcases Creation.create_spec tidy plain done with ⟨known, names, parts, _, created⟩
      exact apart created.grown
  | importDocument done =>
      rcases Creation.create_of_imported done with ⟨tree, written, done⟩
      rcases Creation.create_spec tidy (fun part member => (written part member).no_object) done
        with ⟨known, names, parts, _, created⟩
      exact apart created.grown

end Elsewhere

/-- In a store that has what its nodes and its variables refer to, an edit elsewhere does not
disturb a whole tree, even if variables of both trees name the same definitions. -/
theorem Reachable.trees_isolated [Host] {store after : Store} (reachable : Reachable store)
    (complete : Complete store.records) {root : Node}
    (stored : store.records.nodes.get? root.id = some root) (alone : root.parent = none)
    (edit : Elsewhere root store after) : Undisturbed root store.records after.records := by
  have tidy := reachable.tidy
  have tidy' := edit.tidy tidy
  have untouched := edit.untouched tidy complete stored alone
  have needed := complete.sound stored
  exact
    { stored := (untouched.nodes .refl).trans stored
      value := fun context => (untouched.interpret_eq tidy tidy' needed context).1
      context := fun context => (untouched.interpret_eq tidy tidy' needed context).2
      document := untouched.build_eq tidy tidy' needed }

/-- A variable and a copy of it, which names the same definition. -/
def twoUses : Store :=
  (Tree.cloneTree ⟨⟨1⟩, none, 0, some ⟨.use, ⟨2⟩⟩⟩ oneVariable).2

/-- The copy can do without the original. -/
theorem trees_isolated_copy : ∃ root node after, Reachable twoUses ∧ Complete twoUses.records ∧
    twoUses.records.nodes.get? root.id = some root ∧ root.parent = none ∧
      Tree.deleteTree node twoUses = (.ok (), after) ∧ Elsewhere root twoUses after ∧
        Undisturbed root twoUses.records after.records := by
  let root : Node := ⟨⟨2⟩, none, 0, some ⟨.use, ⟨3⟩⟩⟩
  let node : Node := ⟨⟨1⟩, none, 0, some ⟨.use, ⟨2⟩⟩⟩
  have reachable : Reachable twoUses := .cloneTree _ (.create _ _ _ .empty) (by rfl)
  have records : twoUses.records =
      ⟨2, 3, (Table.empty.insert ⟨1⟩ node).insert ⟨2⟩ root, .empty,
        ((Table.empty.insert ⟨.definition, ⟨1⟩⟩ (.definition "x" none)).insert ⟨.use, ⟨2⟩⟩
          (.use ⟨1⟩)).insert ⟨.use, ⟨3⟩⟩ (.use ⟨1⟩)⟩ := by cbv
  have complete : Complete twoUses.records := by
    rw [records]
    exact .of_all (by rfl) (by rfl)
  have stored : twoUses.records.nodes.get? node.id = some node := by simp [records, node]
  have stored_root : twoUses.records.nodes.get? root.id = some root := by simp [records, root]
  have unextended : twoUses.records.children = .empty := by rw [records]
  have alone {id other : NodeId} (path : twoUses.records.Within id other) : other = id := by
    rcases Relation.ReflTransGen.cases_head path with same | ⟨child, listed, _⟩
    · exact same.symm
    · rw [ChildOf, childList, unextended] at listed
      cases listed
  have wrapped {other : Node} (found : twoUses.records.nodes.get? other.id = some other)
      {ref : ContentRef} (referenced : twoUses.records.Referenced other.id ref) :
      other.content = some ref := by
    rcases referenced with ⟨id, inner, path, present, wraps⟩
    rcases alone path with rfl
    rw [found] at present
    cases present
    exact wraps
  have separate : Separate twoUses.records root.id node.id := by
    refine ⟨fun path => ?_, fun here there => ?_, fun _ there => ?_⟩
    · cases alone path
    · have wraps := wrapped stored_root here
      cases wraps
      cases wrapped stored there
    · cases wrapped stored there
  rcases Tree.exists_deleteTree reachable.tidy.linked complete (by cbv) stored with ⟨after, done⟩
  have edit : Elsewhere root twoUses after := .deleteTree separate stored done
  exact ⟨root, node, after, reachable, complete, stored_root, rfl, done, edit,
    reachable.trees_isolated complete stored_root rfl edit⟩

end RuleTree
