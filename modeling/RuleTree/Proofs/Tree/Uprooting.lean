import RuleTree.Proofs.Tree.Dismantling

/-!
# Deleting whole trees

A deletion that is not refused finds all that it reads in a store that has what its nodes and its
variables refer to (`Tree.exists_deleteTree`).  The deletion of a whole tree changes no list of
children that stays and no position, so that it takes away the tree, its objects and what these free
and leaves everything else exactly as it was (`Tree.uprooted`).
-/

namespace RuleTree

open Step Store

namespace Records

/-- A tree is gone with the lists of its children, its objects and the definitions that it frees;
everything else is as it was. -/
structure Uprooted (root : NodeId) (before after : Records) : Prop where
  gone : ∀ {id}, before.Within root id →
    after.nodes.get? id = none ∧ after.children.get? id = none
  kept : ∀ {id}, ¬before.Within root id → after.nodes.get? id = before.nodes.get? id ∧
    after.children.get? id = before.children.get? id
  objects_gone : ∀ {ref}, before.Referenced root ref ∨ before.Freed root ref →
    after.objects.get? ref = none
  objects_kept : ∀ {ref}, ¬before.Referenced root ref → ¬before.Freed root ref →
    after.objects.get? ref = before.objects.get? ref

/-- A root is on no list of children. -/
theorem Linked.unlisted {records : Records} (linked : Linked records) {root : NodeId} {node : Node}
    (stored : records.nodes.get? root = some node) (alone : node.parent = none) (id : NodeId) :
    root ∉ records.childList id := by
  intro member
  rcases linked.owned member with ⟨node', found, above⟩
  rw [stored] at found
  cases found
  rw [alone] at above
  cases above

theorem Stages.uprooted {before middle after : Records} {objects : Table ContentRef Content}
    {root : NodeId} {node : Node} (stages : Stages root node.parent before objects middle after)
    (linked : Linked before) (stored : before.nodes.get? root = some node)
    (alone : node.parent = none) : Uprooted root before after := by
  have pruned := stages.pruned
  rcases stages.alone alone with rfl
  constructor
  case gone => exact fun within => ⟨(pruned.gone within).1, pruned.cleared within⟩
  case kept =>
    intro id outside
    have unlisted := linked.unlisted stored alone id
    exact ⟨(pruned.kept outside).1, pruned.lists outside unlisted⟩
  case objects_gone =>
    intro ref removed
    rw [pruned.objects]
    exact stages.gone removed
  case objects_kept =>
    intro ref not_referenced not_freed
    rw [pruned.objects]
    exact stages.kept not_referenced not_freed

end Records

namespace Tree

open Records

variable {store after : Store} {node : Node}

theorem exists_deleteTree (linked : Linked store.records) (complete : Complete store.records)
    (allowed : store.refused = []) (stored : store.records.nodes.get? node.id = some node) :
    ∃ after, deleteTree node store = (.ok (), after) := by
  rcases exists_deletionSteps linked complete allowed stored with ⟨after, _, _, _, _, done, _⟩
  exact ⟨after, done⟩

theorem uprooted (linked : Linked store.records)
    (stored : store.records.nodes.get? node.id = some node) (alone : node.parent = none)
    (done : deleteTree node store = (.ok (), after)) :
    Uprooted node.id store.records after.records := by
  rcases deleteTree_stages linked done with ⟨objects, middle, stages⟩
  exact stages.uprooted linked stored alone

end Tree

end RuleTree
