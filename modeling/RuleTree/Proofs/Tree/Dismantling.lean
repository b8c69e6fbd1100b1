import RuleTree.Proofs.Tree.Building
import RuleTree.Proofs.Tree.Deletion

/-!
# Deletions in any store

A deletion that succeeds found everything that it had to read, whatever the store was like before:
the objects of the tree were all stored, and so were the definitions that it took into account.
`Tree.dismantled` says what is gone then and what is left.  Nothing is assumed of the node by which
the tree is deleted but its number; a wrong parent in it only moves nodes among their siblings.
-/

namespace RuleTree

open Step Store

namespace Records

variable {before middle after records : Records} {root : NodeId}

/-- A tree with its objects and the definitions that it frees is gone, and nothing else is. -/
structure Dismantled (root : NodeId) (before after : Records) : Prop where
  linked : Linked after
  present : ∀ {ref}, before.Referenced root ref → ∃ content, before.objects.get? ref = some content
  gone : ∀ {ref}, before.Referenced root ref ∨ before.Freed root ref →
    after.objects.get? ref = none
  kept : ∀ {ref}, ¬before.Referenced root ref → ¬before.Freed root ref →
    after.objects.get? ref = before.objects.get? ref
  wraps_iff : ∀ {id ref}, after.Wraps id ref ↔ before.Wraps id ref ∧ ¬before.Within root id
  lastObject : after.lastObject = before.lastObject

theorem Dismantled.stored_before (dismantled : Dismantled root before after) {ref : ContentRef}
    {content : Content} (found : after.objects.get? ref = some content) :
    before.objects.get? ref = some content ∧ ¬before.Referenced root ref ∧
      ¬before.Freed root ref := by
  have left : ¬(before.Referenced root ref ∨ before.Freed root ref) := by
    intro removed
    rw [dismantled.gone removed] at found
    cases found
  rw [not_or] at left
  rw [dismantled.kept left.1 left.2] at found
  exact ⟨found, left⟩

/-- Numbering siblings changes no object of a node. -/
theorem Repositioned.wraps_iff {place : NodeId → Nat → Nat}
    (moved : Repositioned place before after) {id : NodeId} {ref : ContentRef} :
    after.Wraps id ref ↔ before.Wraps id ref := by
  constructor
  · rintro ⟨node, found, content⟩
    rcases moved.get?_eq_some found with ⟨old, old_found, rfl⟩
    exact ⟨old, old_found, content⟩
  · rintro ⟨node, found, content⟩
    refine ⟨{ node with position := place id node.position }, ?_, content⟩
    simp [moved.nodes, found]

/-- The children of one node were numbered anew, in some order. -/
def Reordered (parent : NodeId) (before after : Records) : Prop :=
  ∃ ordered, List.Perm ordered (before.childList parent) ∧
    Repositioned (placeFrom 0 ordered) before after

theorem Reordered.kept {parent id : NodeId} (reordered : Reordered parent before after)
    (other : id ∉ before.childList parent) : after.nodes.get? id = before.nodes.get? id := by
  rcases reordered with ⟨ordered, same, moved⟩
  have unlisted : id ∉ ordered := fun member => other (same.subset member)
  rw [moved.nodes]
  cases before.nodes.get? id <;> simp [placeFrom, unlisted]

/-- A deletion in stages: some objects go, then the nodes of a tree, and then the children of what
is taken for the parent of the tree are numbered anew. -/
structure Stages (root : NodeId) (parent : Option NodeId) (before : Records)
    (objects : Table ContentRef Content) (middle after : Records) : Prop where
  present : ∀ {ref}, before.Referenced root ref → ∃ content, before.objects.get? ref = some content
  gone : ∀ {ref}, before.Referenced root ref ∨ before.Freed root ref → objects.get? ref = none
  kept : ∀ {ref}, ¬before.Referenced root ref → ¬before.Freed root ref →
    objects.get? ref = before.objects.get? ref
  linked : Linked { before with objects }
  pruned : Pruned root { before with objects } middle
  alone : parent = none → after = middle
  siblings : ∀ {id}, parent = some id → Reordered id middle after

namespace Stages

variable {parent : Option NodeId} {objects : Table ContentRef Content}

/-- Positions aside, the last stage changes nothing. -/
theorem moved (stages : Stages root parent before objects middle after) :
    ∃ place, Repositioned place middle after := by
  cases parent with
  | none =>
      rw [stages.alone rfl]
      refine ⟨fun _ position => position, fun id => ?_, rfl, rfl, rfl, rfl⟩
      cases middle.nodes.get? id <;> rfl
  | some id =>
      rcases stages.siblings rfl with ⟨_, _, moved⟩
      exact ⟨_, moved⟩

theorem dismantled (stages : Stages root parent before objects middle after) :
    Dismantled root before after := by
  rcases stages.moved with ⟨place, moved⟩
  have pruned := stages.pruned
  refine
    { linked := moved.linked (pruned.linked stages.linked), present := stages.present, gone := ?_
      kept := ?_, wraps_iff := ?_, lastObject := by rw [moved.lastObject, pruned.lastObject] }
  · intro ref gone
    rw [moved.objects, pruned.objects]
    exact stages.gone gone
  · intro ref not_referenced not_freed
    rw [moved.objects, pruned.objects]
    exact stages.kept not_referenced not_freed
  · intro id ref
    rw [moved.wraps_iff]
    constructor
    · rintro ⟨other, found, content⟩
      rcases pruned.get?_eq_some.mp found with ⟨found, outside⟩
      exact ⟨⟨other, found, content⟩, outside⟩
    · rintro ⟨⟨other, found, content⟩, outside⟩
      exact ⟨other, pruned.get?_eq_some.mpr ⟨found, outside⟩, content⟩

end Stages

end Records

namespace Tree

open Records

variable {store after : Store}

/-- The objects were all there, and they are gone. -/
theorem deleteObjects_spec {refs : List ContentRef} (distinct : refs.Nodup)
    (done : deleteObjects refs store = (.ok (), after)) :
    (∀ ref ∈ refs, ∃ content, store.records.objects.get? ref = some content) ∧
      ∃ objects, after.records = { store.records with objects } ∧
        ∀ ref, objects.get? ref = if ref ∈ refs then none else store.records.objects.get? ref := by
  induction refs generalizing store with
  | nil =>
      rcases pure_eq_ok.mp done with ⟨_, rfl⟩
      exact ⟨by simp, store.records.objects, rfl, by simp⟩
  | cons first rest ih =>
      rcases List.nodup_cons.mp distinct with ⟨new, distinct⟩
      rcases bind_eq_ok.mp done with ⟨_, middle, deleted, done⟩
      rcases deleteObject_eq_ok.mp deleted with ⟨_, here, rfl⟩
      rcases ih distinct done with ⟨present, objects, same, left⟩
      refine ⟨?_, objects, same, fun ref => ?_⟩
      · intro ref member
        rcases List.mem_cons.mp member with rfl | later
        · exact Option.isSome_iff_exists.mp here
        · rcases present ref later with ⟨content, found⟩
          have differ : first ≠ ref := by
            rintro rfl
            exact new later
          simp only [Table.get?_erase, if_neg differ] at found
          exact ⟨content, found⟩
      · rw [left, Table.get?_erase]
        by_cases same : ref = first
        · simp [same]
        · simp [same, Ne.symm same]

/-- A search for unused definitions reads each of them. -/
theorem unusedOtherwise_present {referenced refs free : List ContentRef}
    (done : unusedOtherwise referenced refs store = (.ok free, after)) :
    ∀ ref ∈ refs, ∃ content, store.records.objects.get? ref = some content := by
  induction refs generalizing store free after with
  | nil => simp
  | cons definition rest ih =>
      rcases bind_eq_ok.mp done with ⟨content, first, loaded, done⟩
      rcases fetch_eq_ok.mp loaded with ⟨found, rfl⟩
      rw [object_eq_ok] at found
      suffices others : ∀ ref ∈ rest, ∃ content, store.records.objects.get? ref = some content by
        intro ref member
        rcases List.mem_cons.mp member with rfl | later
        · exact ⟨content, found⟩
        · exact others ref later
      split at done
      · rcases bind_eq_ok.mp done with ⟨attached, second, asked, done⟩
        rcases fetch_eq_ok.mp asked with ⟨_, rfl⟩
        split at done
        · have others := ih done
          exact others
        · rcases bind_eq_ok.mp done with ⟨uses, third, listed, done⟩
          rcases fetch_eq_ok.mp listed with ⟨_, rfl⟩
          rcases bind_eq_ok.mp done with ⟨free, fourth, searched, _⟩
          have others := ih searched
          exact others
      · have others := ih done
        exact others

/-- What a search found is what it is to find. -/
theorem Finds.of_ok {α : Type} {step : Action α} {holds : α → Prop}
    (finds : Finds store.records step holds) {result : α}
    (done : step store = (.ok result, after)) :
    holds result ∧ ∃ fetches, after = { store with fetches } := by
  rcases finds store rfl with ⟨value, fetches, done', found⟩
  rw [done] at done'
  cases done'
  exact ⟨found, fetches, rfl⟩

/-- A search for freed definitions found those and no others. -/
theorem freeDefinitions_spec (linked : Linked store.records) {referenced free : List ContentRef}
    (present : ∀ ref ∈ referenced, ∃ content, store.records.objects.get? ref = some content)
    (done : freeDefinitions referenced store = (.ok free, after)) (ref : ContentRef) :
    ref ∈ free ↔ ref ∉ referenced ∧
      (∃ use ∈ referenced, store.records.objects.get? use = some (.use ref.id)) ∧
        Unused store.records referenced ref := by
  rcases bind_eq_ok.mp done with ⟨named, middle, collected, done⟩
  rcases (finds_namedDefinitions linked referenced present).of_ok collected with
    ⟨members, fetches, rfl⟩
  have candidates := unusedOtherwise_present done
  rcases (finds_unusedOtherwise referenced candidates).of_ok done with ⟨free_iff, _⟩
  exact mem_free_iff linked members free_iff ref

theorem reordered_renumber {parent : NodeId} {ordered : List NodeId}
    (done : renumber ordered store = (.ok (), after)) (linked : Linked store.records)
    (same : ordered.Perm (store.records.childList parent)) :
    Reordered parent store.records after.records :=
  ⟨ordered, same, repositioned_renumber done linked same⟩

/-- Numbering the children of a parent, or nothing without one. -/
theorem reordered_closing {parent : Option NodeId} (linked : Linked store.records)
    (done : (match parent with
      | some parent => do renumber (← loadChildren parent)
      | none => pure () : Action Unit) store = (.ok (), after)) :
    (parent = none → after.records = store.records) ∧
      ∀ {id}, parent = some id → Reordered id store.records after.records := by
  cases parent with
  | none =>
      rcases pure_eq_ok.mp done with ⟨_, rfl⟩
      exact ⟨fun _ => rfl, by simp⟩
  | some parent =>
      refine ⟨by simp, ?_⟩
      rintro id ⟨⟩
      rcases bind_eq_ok.mp done with ⟨siblings, middle, loaded, done⟩
      rcases fetch_eq_ok.mp loaded with ⟨found, rfl⟩
      rcases childrenOf_eq_ok.mp found with ⟨_, rfl⟩
      have reordered := reordered_renumber done linked orderedChildren_perm
      exact reordered

/-- A move numbers the children of one node and does nothing else. -/
theorem reordered_moveChild {parent child : NodeId} {index : Nat}
    (linked : Linked store.records)
    (done : moveChild parent child index store = (.ok (), after)) :
    Reordered parent store.records after.records := by
  rcases renumber_of_moveChild done with ⟨ordered, middle, same, unchanged, done⟩
  rw [← unchanged] at linked same ⊢
  exact reordered_renumber done linked same

theorem repositioned_moveChild {parent child : NodeId} {index : Nat}
    (linked : Linked store.records)
    (done : moveChild parent child index store = (.ok (), after)) :
    ∃ place, Repositioned place store.records after.records := by
  rcases reordered_moveChild linked done with ⟨ordered, _, moved⟩
  exact ⟨_, moved⟩

theorem deleteTree_stages {node : Node} (linked : Linked store.records)
    (done : deleteTree node store = (.ok (), after)) :
    ∃ objects middle, Stages node.id node.parent store.records objects middle after.records := by
  replace done := transaction_eq_ok.mp done
  rcases bind_eq_ok.mp done with ⟨nodes, first, loaded, done⟩
  rcases fetch_eq_ok.mp loaded with ⟨listed, rfl⟩
  rcases bind_eq_ok.mp done with ⟨free, second, freed, done⟩
  rcases bind_eq_ok.mp done with ⟨_, third, deleted, done⟩
  rcases bind_eq_ok.mp done with ⟨_, fourth, taken, done⟩
  have unchanged := (readsOnly_freeDefinitions _).of_ok freed
  -- The tree is the one below the stored node with this number.
  rcases linked.listing_of_subtree listed with ⟨root, rest, rfl, own, stored, listing⟩
  rcases deleteObjects_spec (nodup_distinct _) deleted with ⟨present, objects, third_eq, left⟩
  rw [unchanged] at present third_eq left
  have present_referenced : ∀ ref ∈ distinct ((root :: rest).filterMap Node.content),
      ∃ content, store.records.objects.get? ref = some content := by
    intro ref member
    exact present ref (List.mem_eraseDups.mpr (List.mem_append_left _ member))
  have free_iff := @freeDefinitions_spec { store with fetches := store.fetches + 1 } _ linked _ _
    present_referenced freed
  have removed_iff := mem_removed_iff linked stored listing rfl free_iff
  rw [own] at removed_iff
  have shrunk := linked.without_objects left
  rcases deleteSubtree_eq_ok.mp taken with ⟨middle, removed, rfl⟩
  rw [own] at stored
  rcases shrunk.removeSubtree_eq stored with ⟨middle', removed', pruned⟩
  rw [third_eq, removed'] at removed
  rcases Except.ok.inj removed with rfl
  have linked_middle := pruned.linked shrunk
  rcases reordered_closing linked_middle done with ⟨alone, siblings⟩
  refine ⟨objects, _,
    { present := ?_, gone := ?_, kept := ?_, linked := shrunk, pruned, alone, siblings }⟩
  · intro ref referenced
    exact present ref ((removed_iff ref).mpr (.inl referenced))
  · intro ref gone
    rw [left, if_pos ((removed_iff ref).mpr gone)]
  · intro ref not_referenced not_freed
    rw [left, if_neg]
    rw [removed_iff]
    simp [not_referenced, not_freed]

theorem dismantled {node : Node} (linked : Linked store.records)
    (done : deleteTree node store = (.ok (), after)) :
    Dismantled node.id store.records after.records := by
  rcases deleteTree_stages linked done with ⟨objects, middle, stages⟩
  exact stages.dismantled

end Tree

end RuleTree
