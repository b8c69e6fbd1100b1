import RuleTree.Tree.Records
import Mathlib.Data.List.Perm.Basic
import Mathlib.Data.List.Nodup
import Mathlib.Logic.Relation

/-!
# Parents and lists of children agree

A store keeps the shape of its trees twice, as the parent in each node and as the list of children
of each parent.  `Records.Linked` says that the two agree, and that a parent always has a smaller
number than its children, which excludes cycles and bounds the depth of every walk.
`Records.Contiguous` says that the children of each node have the positions from zero on.  Linked
records stay linked while an edit is under way; the positions are in order only between edits.
-/

namespace RuleTree.Records

/-! ## The order of children -/

theorem positionLe_total (a b : Option Nat) : (positionLe a b || positionLe b a) = true := by
  cases a <;> cases b <;> simp [positionLe]
  omega

theorem positionLe_trans {a b c : Option Nat} (first : positionLe a b = true)
    (second : positionLe b c = true) : positionLe a c = true := by
  cases a <;> cases b <;> cases c <;> simp_all [positionLe]
  omega

theorem positionLe_antisymm {a b : Option Nat} (first : positionLe a b = true)
    (second : positionLe b a = true) : a = b := by
  cases a <;> cases b <;> simp_all [positionLe]
  omega

section Order

variable {position? position?' : NodeId → Option Nat} {ids ids' : List NodeId}

theorem inOrder_perm : (inOrder position? ids).Perm ids :=
  List.mergeSort_perm ids _

theorem inOrder_pairwise :
    (inOrder position? ids).Pairwise fun a b => positionLe (position? a) (position? b) = true := by
  apply List.pairwise_mergeSort
  · intro a b c first second
    exact positionLe_trans first second
  · intro a b
    exact positionLe_total _ _

theorem inOrder_of_pairwise
    (sorted : ids.Pairwise fun a b => positionLe (position? a) (position? b) = true) :
    inOrder position? ids = ids :=
  List.mergeSort_of_pairwise sorted

theorem pairwise_range (count : Nat) :
    ((List.range count).map some).Pairwise fun a b => positionLe a b = true := by
  refine List.pairwise_map.mpr (List.pairwise_le_range.imp ?_)
  intro a b before
  simpa [positionLe] using before

/-- Numbers that are listed in the order of their positions stay in this order. -/
theorem inOrder_of_positions {count : Nat}
    (positions : ids.map position? = (List.range count).map some) :
    inOrder position? ids = ids := by
  have sorted := pairwise_range count
  rw [← positions] at sorted
  exact inOrder_of_pairwise (List.pairwise_map.mp sorted)

/-- Children with different positions have one order, however they were listed before. -/
theorem inOrder_eq_of_perm (same : ids.Perm ids')
    (agree : ∀ id ∈ ids, position? id = position?' id)
    (different : (ids.map position?).Nodup) : inOrder position? ids = inOrder position?' ids' := by
  refine @List.Perm.eq_of_pairwise _
    (fun a b => positionLe (position? a) (position? b) = true) _ _ ?_ ?_ ?_ ?_
  · intro a b a_mem b_mem first second
    have a_mem : a ∈ ids := inOrder_perm.subset a_mem
    have b_mem : b ∈ ids := same.symm.subset (inOrder_perm.subset b_mem)
    exact List.inj_on_of_nodup_map different a_mem b_mem (positionLe_antisymm first second)
  · exact inOrder_pairwise
  · refine List.Pairwise.imp_of_mem ?_ (@inOrder_pairwise position?' ids')
    intro a b a_mem b_mem before
    have a_mem : a ∈ ids := same.symm.subset (inOrder_perm.subset a_mem)
    have b_mem : b ∈ ids := same.symm.subset (inOrder_perm.subset b_mem)
    rw [agree a a_mem, agree b b_mem]
    exact before
  · exact inOrder_perm.trans (same.trans inOrder_perm.symm)

end Order

/-! ## Linked records -/

/-- Parents and lists of children agree, numbers and addresses were given out in order, and every
node below a root wraps an object. -/
structure Linked (records : Records) : Prop where
  keyed : ∀ {id node}, records.nodes.get? id = some node → node.id = id
  numbered : ∀ {id node}, records.nodes.get? id = some node → id.val ≤ records.lastNode
  stored : ∀ {id node parent}, records.nodes.get? id = some node → node.parent = some parent →
    ∃ above, records.nodes.get? parent = some above
  rising : ∀ {id node parent}, records.nodes.get? id = some node → node.parent = some parent →
    parent.val < id.val
  listed : ∀ {id node parent}, records.nodes.get? id = some node → node.parent = some parent →
    id ∈ records.childList parent
  owned : ∀ {id parent}, id ∈ records.childList parent →
    ∃ node, records.nodes.get? id = some node ∧ node.parent = some parent
  once : ∀ parent, (records.childList parent).Nodup
  wrapping : ∀ {id node parent}, records.nodes.get? id = some node → node.parent = some parent →
    ∃ ref, node.content = some ref
  addressed : ∀ {ref content}, records.objects.get? ref = some content →
    ref.id.val ≤ records.lastObject ∧ content.kind = ref.kind
  counted : 0 ≤ records.lastObject
  positive : ∀ {ref content}, records.objects.get? ref = some content → 0 < ref.id.val

/-- The children of a node have the positions from zero on. -/
def ContiguousAt (records : Records) (parent : NodeId) : Prop :=
  ((records.childList parent).map records.position?).Perm
    ((List.range (records.childList parent).length).map some)

/-- The children of each node have the positions from zero on. -/
def Contiguous (records : Records) : Prop := ∀ parent, records.ContiguousAt parent

theorem linked_empty : Linked empty where
  keyed found := by cases found
  numbered found := by cases found
  stored found := by cases found
  rising found := by cases found
  listed found := by cases found
  owned member := by cases member
  once _ := List.nodup_nil
  wrapping found := by cases found
  addressed found := by cases found
  counted := Int.le_refl _
  positive found := by cases found

theorem contiguous_empty : Contiguous empty := fun _ => List.Perm.refl _

namespace Linked

variable {records : Records}

theorem owner_stored (linked : Linked records) {id parent : NodeId}
    (member : id ∈ records.childList parent) :
    ∃ above, records.nodes.get? parent = some above := by
  rcases linked.owned member with ⟨node, found, below⟩
  exact linked.stored found below

theorem owner_lt (linked : Linked records) {id parent : NodeId}
    (member : id ∈ records.childList parent) : parent.val < id.val := by
  rcases linked.owned member with ⟨node, found, below⟩
  exact linked.rising found below

theorem owner_unique (linked : Linked records) {id parent other : NodeId}
    (member : id ∈ records.childList parent) (member' : id ∈ records.childList other) :
    parent = other := by
  rcases linked.owned member with ⟨node, found, below⟩
  rcases linked.owned member' with ⟨node', found', below'⟩
  rw [found] at found'
  rcases Option.some.inj found' with rfl
  rw [below] at below'
  exact Option.some.inj below'

/-- A number that was not given out yet owns no children. -/
theorem childList_eq_nil (linked : Linked records) {id : NodeId}
    (absent : records.nodes.get? id = none) : records.childList id = [] := by
  cases list : records.childList id with
  | nil => rfl
  | cons child rest =>
      have member : child ∈ records.childList id := by simp [list]
      rcases linked.owner_stored member with ⟨above, found⟩
      rw [absent] at found
      cases found

theorem get?_fresh (linked : Linked records) {id : NodeId} (above : records.lastNode < id.val) :
    records.nodes.get? id = none :=
  Table.get?_eq_none_of_lt NodeId.val linked.numbered above

theorem object_fresh (linked : Linked records) {ref : ContentRef}
    (above : records.lastObject < ref.id.val) : records.objects.get? ref = none :=
  Table.get?_eq_none_of_lt (fun ref => ref.id.val) (fun found => (linked.addressed found).1) above

end Linked

theorem orderedChildren_perm {records : Records} {parent : NodeId} :
    (records.orderedChildren parent).Perm (records.childList parent) :=
  inOrder_perm

@[simp]
theorem mem_orderedChildren {records : Records} {id parent : NodeId} :
    id ∈ records.orderedChildren parent ↔ id ∈ records.childList parent :=
  orderedChildren_perm.mem_iff

namespace ContiguousAt

variable {records : Records} {parent : NodeId}

theorem nodup_positions (contiguous : records.ContiguousAt parent) :
    ((records.childList parent).map records.position?).Nodup := by
  rw [contiguous.nodup_iff]
  exact List.nodup_range.map fun _ _ same => Option.some.inj same

/-- In order, the children of a node have the positions zero, one, two and so on. -/
theorem positions_orderedChildren (contiguous : records.ContiguousAt parent) :
    (records.orderedChildren parent).map records.position? =
      (List.range (records.childList parent).length).map some := by
  refine @List.Perm.eq_of_pairwise _ (fun a b => positionLe a b = true) _ _ ?_ ?_ ?_ ?_
  · intro a b _ _ first second
    exact positionLe_antisymm first second
  · exact List.pairwise_map.mpr inOrder_pairwise
  · exact pairwise_range _
  · exact (orderedChildren_perm.map _).trans contiguous

/-- The positions depend on the list of children and on the positions of these children alone. -/
theorem congr {other : Records} (contiguous : records.ContiguousAt parent)
    (list : other.childList parent = records.childList parent)
    (positions : ∀ id ∈ records.childList parent, other.position? id = records.position? id) :
    other.ContiguousAt parent := by
  unfold ContiguousAt
  rw [list, List.map_congr_left positions]
  exact contiguous

/-- So does the order of the children. -/
theorem orderedChildren_congr {other : Records} (contiguous : records.ContiguousAt parent)
    (list : other.childList parent = records.childList parent)
    (positions : ∀ id ∈ records.childList parent, other.position? id = records.position? id) :
    other.orderedChildren parent = records.orderedChildren parent := by
  unfold orderedChildren
  rw [list]
  apply Eq.symm
  apply inOrder_eq_of_perm (List.Perm.refl _) ?_ contiguous.nodup_positions
  intro child member
  exact (positions child member).symm

end ContiguousAt

/-- Children that were listed in the order of their positions stay in this order. -/
theorem orderedChildren_of_positions {records : Records} {parent : NodeId} {count : Nat}
    (positions : (records.childList parent).map records.position? =
      (List.range count).map some) :
    records.orderedChildren parent = records.childList parent :=
  inOrder_of_positions positions

end RuleTree.Records
