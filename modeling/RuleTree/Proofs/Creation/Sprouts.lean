import RuleTree.Proofs.Creation.Building
import RuleTree.Proofs.Tree.Sprouting

/-!
# What was created is a new tree

A creation saves one node without a parent and then only nodes with one (`Records.Hanging`), so that
all new nodes hang below the new root.  A sketch without addresses and numbers of definitions
becomes a new tree that needs all that was made for it (`Creation.sprouted`).
-/

namespace RuleTree

open Step Store

namespace Records

variable {before middle after : Records}

/-- Every new node has a parent. -/
def Hanging (before after : Records) : Prop :=
  ∀ id node, after.nodes.get? id = some node →
    before.nodes.get? id = some node ∨ ∃ parent, node.parent = some parent

theorem Hanging.refl (records : Records) : Hanging records records := fun _ _ found => .inl found

theorem Hanging.trans (first : Hanging before middle) (second : Hanging middle after) :
    Hanging before after := by
  intro id node found
  rcases second id node found with old | below
  · exact first id node old
  · exact .inr below

theorem ObjectsOnly.hanging (objects : ObjectsOnly before after) : Hanging before after := by
  intro id node found
  rw [objects.nodes] at found
  exact .inl found

theorem hanging_saveNode {parent : NodeId} {position : Nat} {content : Option ContentRef}
    {node : Node} (saved : before.saveNode (some parent) position content = .ok (node, after)) :
    Hanging before after := by
  rcases saveNode_eq_ok.mp saved with ⟨_, _, rfl, rfl⟩
  intro id other found
  rcases get?_insertNode_cases found with ⟨_, rfl⟩ | ⟨_, old⟩
  · exact .inr ⟨parent, rfl⟩
  · exact .inl old

/-- Where one new node may be without a parent, the new nodes hang below it. -/
theorem within_of_hanging {root : NodeId} (linked : Linked before) (linked' : Linked after)
    (grown : Grown (fun _ => False) before after)
    (hanging : ∀ id node, after.nodes.get? id = some node →
      before.nodes.get? id = some node ∨ id = root ∨ ∃ parent, node.parent = some parent)
    {id : NodeId} {node : Node} (found : after.nodes.get? id = some node) :
    before.nodes.get? id = some node ∨ after.Within root id := by
  -- Parents have smaller numbers, and the numbers of new nodes are bounded from below.
  induction bound : (id.val - before.lastNode).toNat using Nat.strongRecOn generalizing id node with
  | ind size ih =>
      rcases hanging id node found with old | rfl | ⟨parent, above⟩
      · exact .inl old
      · exact .inr .refl
      · rcases linked'.stored found above with ⟨owner, owner_found⟩
        have child := linked'.listed found above
        rcases grown.newNodes owner_found with owner_old | owner_new
        · rw [grown.lists owner_old not_false] at child
          rcases linked.owned child with ⟨old, old_found, _⟩
          have same := grown.nodes old_found
          rw [found] at same
          cases same
          exact .inl old_found
        · have rising := linked'.rising found above
          rcases ih _ (by omega) owner_found rfl with owner_old | within
          · have low := linked.numbered owner_old
            omega
          · exact .inr (within.tail child)

end Records

namespace Creation

open Records

variable {functions : Option Library} {store after : Store}

mutual

theorem hanging_createNodes {parent : NodeId} {position : Nat} : ∀ {tree : Sketch}
    {store after : Store}, createNodes parent position tree store = (.ok (), after) →
      Hanging store.records after.records
  | ⟨data, children⟩, store, after, done => by
      rcases bind_eq_ok.mp done with ⟨ref, first, given, done⟩
      rcases give_eq_ok.mp given with ⟨_, rfl⟩
      rcases bind_eq_ok.mp done with ⟨node, second, saved, done⟩
      rcases Store.saveNode_eq_ok.mp saved with ⟨records, saved_node, rfl⟩
      exact (hanging_saveNode saved_node).trans (hanging_createNodesFrom done)

theorem hanging_createNodesFrom {parent : NodeId} {position : Nat} : ∀ {trees : List Sketch}
    {store after : Store}, createNodesFrom parent position trees store = (.ok (), after) →
      Hanging store.records after.records
  | [], store, after, done => by
      rcases pure_eq_ok.mp done with ⟨_, rfl⟩
      exact .refl _
  | tree :: rest, store, after, done => by
      rcases bind_eq_ok.mp done with ⟨_, middle, here, done⟩
      exact (hanging_createNodes here).trans (hanging_createNodesFrom done)

end

theorem hanging_createDefinitions {parent : NodeId} {position : Nat} {parts : List Sketch}
    (done : createDefinitions functions parent position parts store = (.ok (), after)) :
    Hanging store.records after.records := by
  induction parts generalizing position store with
  | nil =>
      rcases pure_eq_ok.mp done with ⟨_, rfl⟩
      exact .refl _
  | cons part rest ih =>
      rcases bind_eq_ok.mp done with ⟨⟨ref, left⟩, first, created, done⟩
      rcases bind_eq_ok.mp done with ⟨node, second, saved, done⟩
      rcases Store.saveNode_eq_ok.mp saved with ⟨records, saved_node, rfl⟩
      have objects := (createContent_spec created).1
      exact (objects.hanging.trans (hanging_saveNode saved_node)).trans (ih done)

/-- The root is saved first, and all other nodes have parents. -/
theorem hanging_createTree {parts : List Sketch} {tree : Sketch} {root : Node}
    (done : createTree functions parts tree store = (.ok root, after)) :
    store.records.lastNode < root.id.val ∧ ∀ id node, after.records.nodes.get? id = some node →
      store.records.nodes.get? id = some node ∨ id = root.id ∨
        ∃ parent, node.parent = some parent := by
  suffices saved : ∃ content records, store.records.saveNode none 0 content = .ok (root, records) ∧
      Hanging records after.records by
    rcases saved with ⟨content, records, saved, hanging⟩
    rcases Records.saveNode_eq_ok.mp saved with ⟨_, _, rfl, rfl⟩
    refine ⟨by simp only; omega, fun id node found => ?_⟩
    rcases hanging id node found with here | below
    · rcases get?_insertNode_cases here with ⟨same, _⟩ | ⟨_, old⟩
      · exact .inr (.inl same)
      · exact .inl old
    · exact .inr (.inr below)
  unfold createTree at done
  split at done
  · rcases bind_eq_ok.mp done with ⟨root', first, saved, done⟩
    rcases Store.saveNode_eq_ok.mp saved with ⟨records, saved_root, rfl⟩
    rcases bind_eq_ok.mp done with ⟨_, second, defined, done⟩
    rcases bind_eq_ok.mp done with ⟨_, third, created, done⟩
    rcases pure_eq_ok.mp done with ⟨rfl, rfl⟩
    exact ⟨_, _, saved_root,
      (hanging_createDefinitions defined).trans (hanging_createNodesFrom created)⟩
  · rcases bind_eq_ok.mp done with ⟨ref, zeroth, given, done⟩
    rcases give_eq_ok.mp given with ⟨_, rfl⟩
    rcases bind_eq_ok.mp done with ⟨root', first, saved, done⟩
    rcases Store.saveNode_eq_ok.mp saved with ⟨records, saved_root, rfl⟩
    rcases bind_eq_ok.mp done with ⟨_, third, created, done⟩
    rcases pure_eq_ok.mp done with ⟨rfl, rfl⟩
    exact ⟨_, _, saved_root, hanging_createNodesFrom created⟩

theorem hanging_create {tree : Sketch} {version : Option Version} {root : Node}
    (tidy : Tidy store.records)
    (done : create functions tree version store = (.ok root, after)) :
    store.records.lastNode < root.id.val ∧ ∀ id node, after.records.nodes.get? id = some node →
      store.records.nodes.get? id = some node ∨ id = root.id ∨
        ∃ parent, node.parent = some parent := by
  rcases create_steps done with
    ⟨external, parts, bound, contents, first, second, _, bindings, _, created, done⟩
  have objects := (bindVariables_spec bindings tidy).1.trans (createContents_objectsOnly created)
  rw [← objects.nodes, ← objects.lastNode]
  exact hanging_createTree done

/-- A sketch without addresses and numbers of definitions becomes a new tree. -/
theorem sprouted {tree : Sketch} {version : Option Version} {root : Node}
    (tidy : Tidy store.records)
    (plain : ∀ part ∈ tree.walk, part.get? "object_id" = none)
    (unbound : ∀ part ∈ tree.walk, part.get? "definition_id" = none)
    (done : create functions tree version store = (.ok root, after)) :
    Sprouted store.records root after.records := by
  have linked := tidy.linked
  rcases create_spec tidy plain done with ⟨known, names, parts, _, created⟩
  rcases builds_plain linked plain done with ⟨made, wrapped, builds, _, own, used⟩
  rcases hanging_create tidy done with ⟨fresh, hanging⟩
  have linked' := builds.linked linked
  constructor
  case grown => exact created.grown
  case lists => exact builds.lists_kept created.grown
  case stored => exact created.rooted.stored
  case alone => exact created.rooted.isRoot
  case fresh => exact linked.get?_fresh fresh
  case below => exact fun found => within_of_hanging linked linked' created.grown hanging found
  case wraps =>
    intro id ref wraps
    refine (builds.wraps_cases linked wraps).imp_right fun ⟨member, present⟩ => ?_
    exact ⟨builds.absent_of_mem_made linked (own ref member), present⟩
  case needed =>
    intro ref content found
    rcases builds.mem_made found with old | member
    · exact .inl old
    rcases used ref member with wrapping | spare
    · exact .inr (.inl (builds.wraps_of_mem linked wrapping))
    · have kind := (linked'.addressed found).2.trans spare.definition
      cases content with
      | definition name source =>
          cases source with
          | none =>
              rcases spare.named found with ⟨use, use_found⟩
              exact .inr (.inr ⟨name, use, rfl, use_found⟩)
          | some source => exact .inl (external_of_create linked plain done found)
      | _ => cases kind
  case named =>
    intro use definition found
    rcases use_of_create linked plain unbound done found with old | new | external
    · exact .inr (.inr ⟨use, old⟩)
    · exact .inl new
    · exact .inr (.inl external)

end Creation

end RuleTree
