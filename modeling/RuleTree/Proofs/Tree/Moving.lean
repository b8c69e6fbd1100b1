import RuleTree.Proofs.Reachable
import Mathlib

/-!
# Moving a child

A move numbers the siblings anew; their list keeps the order in which they came, and only sorting it
by position shows the new order.  Since the numbers are different, the order that is read is the one
in which they were given out, so that a move takes the child out of the ordered siblings and puts it
back in at the index (`Reinsertion`).  It changes nothing else, and a move back to the old index
gives the old records (`Reachable.moves_child`).
-/

namespace RuleTree

open Step Store Records RuleTree.Tree

/-! ## Putting an item back into a list -/

/-- The siblings with one of them put at an index among the others, or at the end if the index lies
behind it. -/
def reinserted (child : NodeId) (index : Nat) (siblings : List NodeId) : List NodeId :=
  let others := siblings.filter (· ≠ child)
  let place := min index (siblings.length - 1)
  others.take place ++ child :: others.drop place

section Lists

variable {child : NodeId} {siblings : List NodeId}

/-- One sibling and the others. -/
theorem split_siblings (member : child ∈ siblings) (distinct : siblings.Nodup) :
    ∃ left right, siblings = left ++ child :: right ∧ child ∉ left ∧
      siblings.filter (· ≠ child) = left ++ right := by
  rcases List.append_of_mem member with ⟨left, right, rfl⟩
  have apart := List.nodup_middle.mp distinct
  rcases List.nodup_cons.mp apart with ⟨outside, _⟩
  rw [List.mem_append, not_or] at outside
  refine ⟨left, right, rfl, outside.1, ?_⟩
  have keep (ids : List NodeId) (absent : child ∉ ids) : ids.filter (· ≠ child) = ids := by
    rw [List.filter_eq_self]
    intro id listed
    exact decide_eq_true fun same => absent (same ▸ listed)
  rw [List.filter_append, List.filter_cons, keep left outside.1, keep right outside.2]
  simp

theorem length_others (member : child ∈ siblings) (distinct : siblings.Nodup) :
    (siblings.filter (· ≠ child)).length = siblings.length - 1 := by
  rcases split_siblings member distinct with ⟨left, right, rfl, _, others⟩
  rw [others, List.length_append, List.length_append, List.length_cons]
  omega

theorem insertIdx_eq {index : Nat} {items : List NodeId} (bound : index ≤ items.length) :
    items.insertIdx index child = items.take index ++ child :: items.drop index := by
  have length : (items.take index).length + 0 = index := List.length_take_of_le bound
  have split := List.modifyTailIdx_add (List.cons child) 0 (items.take index) (items.drop index)
  rw [List.take_append_drop, length] at split
  exact split

/-- A move takes an item out of a list and puts it back in. -/
theorem moved_eq_reinserted (member : child ∈ siblings) (distinct : siblings.Nodup)
    (index : Nat) : moved child index siblings = reinserted child index siblings := by
  have others : siblings.erase child = siblings.filter (· ≠ child) := by
    rw [distinct.erase_eq_filter]
    apply List.filter_congr
    intro id _
    rw [Bool.eq_iff_iff]
    simp
  unfold moved reinserted
  simp only
  rw [others, insertIdx_eq (Nat.min_le_right _ _), length_others member distinct]

theorem others_reinserted (child : NodeId) (index : Nat) (siblings : List NodeId) :
    (reinserted child index siblings).filter (· ≠ child) = siblings.filter (· ≠ child) := by
  unfold reinserted
  simp only
  rw [List.filter_append, List.filter_cons]
  simp only [ne_eq, not_true_eq_false, decide_false, Bool.false_eq_true, if_false]
  rw [← List.filter_append, List.take_append_drop, List.filter_filter]
  simp

theorem length_reinserted (member : child ∈ siblings) (distinct : siblings.Nodup) (index : Nat) :
    (reinserted child index siblings).length = siblings.length := by
  rw [← moved_eq_reinserted member distinct]
  exact (moved_perm member index).length_eq

/-- Put back at its old index, an item is where it was. -/
theorem reinserted_reinserted (member : child ∈ siblings) (distinct : siblings.Nodup)
    (index : Nat) :
    reinserted child (siblings.idxOf child) (reinserted child index siblings) = siblings := by
  have length := length_reinserted member distinct index
  have others := others_reinserted child index siblings
  rcases split_siblings member distinct with ⟨left, right, whole, outside, rest⟩
  have old : siblings.idxOf child = left.length := by
    rw [whole, List.idxOf_append_of_notMem outside, List.idxOf_cons_self]
    rfl
  have place : min left.length (siblings.length - 1) = left.length := by
    rw [whole, List.length_append, List.length_cons]
    omega
  rw [reinserted, others, length, rest, old]
  simp only [place]
  rw [List.take_left, List.drop_left, whole]

end Lists

/-! ## The move in a store -/

/-- A child of a parent was put at an index among its siblings. -/
structure Reinsertion (parent child : NodeId) (index : Nat) (before after : Records) : Prop where
  order : after.orderedChildren parent =
    reinserted child index (before.orderedChildren parent)
  positions : (after.orderedChildren parent).map after.position? =
    (List.range (before.orderedChildren parent).length).map some
  siblings : ∀ id ∈ before.orderedChildren parent, ∃ node position,
    before.nodes.get? id = some node ∧ after.nodes.get? id = some { node with position }
  others : ∀ id, id ∉ before.orderedChildren parent →
    after.nodes.get? id = before.nodes.get? id
  elsewhere : ∀ other, other ≠ parent →
    after.orderedChildren other = before.orderedChildren other
  children : after.children = before.children
  objects : after.objects = before.objects
  lastNode : after.lastNode = before.lastNode
  lastObject : after.lastObject = before.lastObject

variable {parent child : NodeId} {index : Nat} {before after : Records} {store : Store}

theorem nodup_orderedChildren (linked : Linked before) (parent : NodeId) :
    (before.orderedChildren parent).Nodup :=
  orderedChildren_perm.nodup_iff.mpr (linked.once parent)

/-- Numbered in a new order, the siblings are read in this order. -/
theorem Reinsertion.of_repositioned {ordered : List NodeId} (tidy : Tidy before)
    (moved : Repositioned (placeFrom 0 ordered) before after)
    (perm : ordered.Perm (before.orderedChildren parent))
    (arranged : ordered = reinserted child index (before.orderedChildren parent)) :
    Reinsertion parent child index before after := by
  have same : ordered.Perm (before.childList parent) := perm.trans orderedChildren_perm
  have positions := moved.positions tidy.linked same
  -- The list of children is not touched; sorted by the new positions it is the new order.
  have order : after.orderedChildren parent = ordered := by
    have different : (ordered.map after.position?).Nodup := by
      rw [positions]
      exact List.nodup_range.map fun _ _ equal => Option.some.inj equal
    unfold orderedChildren
    rw [moved.childList, ← inOrder_eq_of_perm same (fun _ _ => rfl) different]
    exact inOrder_of_positions positions
  refine ⟨order.trans arranged, ?_, ?_, ?_, ?_, moved.children, moved.objects, moved.lastNode,
    moved.lastObject⟩
  · rw [order, positions, perm.length_eq]
  · intro id listed
    rcases tidy.linked.owned (mem_orderedChildren.mp listed) with ⟨node, found, _⟩
    refine ⟨node, placeFrom 0 ordered id node.position, found, ?_⟩
    rw [moved.nodes, found]
    rfl
  · intro id outside
    have absent : id ∉ ordered := fun inside => outside (perm.subset inside)
    rw [moved.nodes]
    cases before.nodes.get? id with
    | none => rfl
    | some node => simp [placeFrom, absent]
  · intro other differ
    apply (tidy.contiguous other).orderedChildren_congr (moved.childList other)
    intro id listed
    have absent : id ∉ ordered := fun inside =>
      differ (tidy.linked.owner_unique listed (same.subset inside))
    rw [moved.position?]
    cases before.position? id with
    | none => rfl
    | some position => simp [placeFrom, absent]

/-- A move that undoes the order of another undoes all of it. -/
theorem Reinsertion.restores {old : Nat} {final : Records} (tidy : Tidy before)
    (first : Reinsertion parent child index before after)
    (second : Reinsertion parent child old after final)
    (back : final.orderedChildren parent = before.orderedChildren parent) : final = before := by
  -- In either order the positions count from zero, so every sibling has its old one again.
  have positions : (before.orderedChildren parent).map final.position? =
      (before.orderedChildren parent).map before.position? := by
    have given := second.positions
    have length := congrArg List.length given
    rw [List.length_map, back, List.length_map, List.length_range] at length
    rw [← back, given, ← length, back,
      (tidy.contiguous parent).positions_orderedChildren, orderedChildren_perm.length_eq]
  have nodes : final.nodes = before.nodes := by
    apply Table.ext_get?
    intro id
    have still : id ∈ after.orderedChildren parent ↔ id ∈ before.orderedChildren parent := by
      rw [mem_orderedChildren, mem_orderedChildren, childList, childList, first.children]
    by_cases listed : id ∈ before.orderedChildren parent
    · rcases first.siblings id listed with ⟨node, position, found, placed⟩
      rcases second.siblings id (still.mpr listed) with ⟨node', position', found', placed'⟩
      rw [placed] at found'
      rcases Option.some.inj found' with rfl
      have same := List.map_inj_left.mp positions id listed
      simp only [position?, placed', found, Option.map_some, Option.some.injEq] at same
      rw [placed', found, same]
    · rw [second.others id (mt still.mp listed), first.others id listed]
  have children := second.children.trans first.children
  have objects := second.objects.trans first.objects
  have lastNode := second.lastNode.trans first.lastNode
  have lastObject := second.lastObject.trans first.lastObject
  cases final
  cases before
  simp only at nodes children objects lastNode lastObject
  rw [nodes, children, objects, lastNode, lastObject]

/-- A move numbers the siblings anew. -/
theorem moveChild_eq (store : Store) (tidy : Tidy store.records)
    (member : child ∈ store.records.orderedChildren parent) (index : Nat) :
    ∃ records, moveChild parent child index store =
        (.ok (), { store with records := records, fetches := store.fetches + 1 }) ∧
      Reinsertion parent child index store.records records := by
  have distinct := nodup_orderedChildren tidy.linked parent
  rcases tidy.linked.owner_stored (mem_orderedChildren.mp member) with ⟨above, stored⟩
  let counted : Store := { store with fetches := store.fetches + 1 }
  have loaded : loadChildren parent store =
      (.ok (store.records.orderedChildren parent), counted) := by
    refine fetch_eq_ok.mpr ⟨?_, rfl⟩
    exact if_pos (by rw [Table.contains, stored]; rfl)
  have perm := moved_perm member index
  rw [moved_eq_reinserted member distinct] at perm
  have present : ∀ id ∈ reinserted child index (store.records.orderedChildren parent),
      ∃ node, counted.records.nodes.get? id = some node := by
    intro id listed
    rcases tidy.linked.owned (mem_orderedChildren.mp (perm.subset listed)) with ⟨node, found, _⟩
    exact ⟨node, found⟩
  rcases renumberFrom_eq 0 counted tidy.linked (perm.nodup_iff.mpr distinct) present with
    ⟨records, renumbered, moved⟩
  refine ⟨records, ?_, .of_repositioned tidy moved perm rfl⟩
  apply transaction_eq_ok.mpr
  rw [bind_of_ok loaded, if_pos member, moved_eq_reinserted member distinct]
  exact renumbered

/-- A move to nowhere: the parent is not stored, or the node is not its child. -/
theorem moveChild_eq_error (member : child ∉ store.records.orderedChildren parent) (index : Nat) :
    moveChild parent child index store =
      (.error (.store (if store.records.nodes.contains parent then .notAChild child parent
        else .nodeNotFound parent)), { store with fetches := store.fetches + 1 }) := by
  unfold moveChild transaction
  by_cases stored : store.records.nodes.contains parent
  · have loaded : loadChildren parent store =
        (.ok (store.records.orderedChildren parent),
          { store with fetches := store.fetches + 1 }) :=
      fetch_eq_ok.mpr ⟨if_pos stored, rfl⟩
    rw [bind_of_ok loaded, if_neg member, if_pos stored]
    rfl
  · have refused : loadChildren parent store =
        (.error (.store (.nodeNotFound parent)), { store with fetches := store.fetches + 1 }) := by
      unfold loadChildren fetch childrenOf
      simp only
      rw [if_neg stored]
      rfl
    rw [bind_of_error refused, if_neg stored]

/--
A move of a child puts it at the index among its siblings, and a move back to its old index gives
the old records.  A move of any other node fails and leaves the records as they are.
-/
theorem Reachable.moves_child (reachable : Reachable store) (parent child : NodeId)
    (index : Nat) :
    (child ∈ store.records.orderedChildren parent → ∃ records,
      Tree.moveChild parent child index store =
          (.ok (), { store with records := records, fetches := store.fetches + 1 }) ∧
        Reinsertion parent child index store.records records ∧
        Tree.moveChild parent child ((store.records.orderedChildren parent).idxOf child)
            { store with records := records, fetches := store.fetches + 1 } =
          (.ok (), { store with fetches := store.fetches + 2 })) ∧
    (child ∉ store.records.orderedChildren parent →
      Tree.moveChild parent child index store =
        (.error (.store (if store.records.nodes.contains parent then .notAChild child parent
          else .nodeNotFound parent)), { store with fetches := store.fetches + 1 })) := by
  refine ⟨fun member => ?_, fun member => moveChild_eq_error member index⟩
  have tidy := reachable.tidy
  have distinct := nodup_orderedChildren tidy.linked parent
  rcases moveChild_eq store tidy member index with ⟨records, moved, reinsertion⟩
  have still : child ∈ records.orderedChildren parent := by
    rw [mem_orderedChildren, childList, reinsertion.children]
    exact mem_orderedChildren.mp member
  rcases moveChild_eq { store with records := records, fetches := store.fetches + 1 }
    (tidy_moveChild tidy moved) still ((store.records.orderedChildren parent).idxOf child) with
    ⟨final, moved_back, reinsertion_back⟩
  have back : final.orderedChildren parent = store.records.orderedChildren parent := by
    rw [reinsertion_back.order, reinsertion.order]
    exact reinserted_reinserted member distinct index
  rcases reinsertion.restores tidy reinsertion_back back with rfl
  exact ⟨records, moved, reinsertion, moved_back⟩

/-- A root with three children. -/
def siblingStore : Store :=
  (Tree.addChild ⟨1⟩ (.text "c")
    (Tree.addChild ⟨1⟩ (.text "b")
      (Tree.addChild ⟨1⟩ (.text "a") (Tree.addRoot none Store.empty).2).2).2).2

/-- The first of three children is moved behind the last one and back. -/
theorem moves_child_behind_the_last : ∃ records,
    moveChild ⟨1⟩ ⟨2⟩ 7 siblingStore =
        (.ok (), { siblingStore with records := records, fetches := siblingStore.fetches + 1 }) ∧
      records.orderedChildren ⟨1⟩ = [⟨3⟩, ⟨4⟩, ⟨2⟩] ∧
      moveChild ⟨1⟩ ⟨2⟩ 0
          { siblingStore with records := records, fetches := siblingStore.fetches + 1 } =
        (.ok (), { siblingStore with fetches := siblingStore.fetches + 2 }) := by
  have reachable : Reachable siblingStore :=
    .addChild _ _ (.addChild _ _ (.addChild _ _ (.addRoot none .empty)))
  have siblings : siblingStore.records.orderedChildren ⟨1⟩ = [⟨2⟩, ⟨3⟩, ⟨4⟩] := by cbv
  have member : (⟨2⟩ : NodeId) ∈ siblingStore.records.orderedChildren ⟨1⟩ := by
    rw [siblings]
    decide
  rcases (reachable.moves_child ⟨1⟩ ⟨2⟩ 7).1 member with ⟨records, moved, reinsertion, back⟩
  have order := reinsertion.order
  rw [siblings] at order back
  exact ⟨records, moved, order, back⟩

end RuleTree
