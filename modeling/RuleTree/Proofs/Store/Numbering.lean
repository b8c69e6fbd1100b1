import RuleTree.Proofs.Store.Script
import RuleTree.Proofs.Tree.Growth
import RuleTree.Proofs.Tree.Removal

/-!
# Numbers of new records

A store keeps the last number that it gave to a node and the last one that it gave to an object of
any kind.  Saving raises them, entering a record under a number of its own lifts them, and a
transaction that is undone takes them back together with all that it stored.  `Records.Numbered`
says that no stored number is beyond the last one; every call keeps this, so that it holds at each
moment of a script.  A new record therefore never takes the number of a stored one and replaces
nothing (`Script.numbers_fresh`).
-/

namespace RuleTree

open Store

/-! ## Inserting into a table -/

namespace Table

variable {κ α : Type} [Ord κ] [DecidableEq κ]

/-- A table has one entry more, under a key that it did not have. -/
structure Extended (key : κ) (value : α) (before after : Table κ α) : Prop where
  unused : before.get? key = none
  entered : after.get? key = some value
  kept : ∀ {other old}, before.get? other = some old → after.get? other = some old
  no_other : ∀ {other}, other ≠ key → after.get? other = before.get? other

variable [Std.TransOrd κ] [Std.LawfulEqOrd κ] {table : Table κ α} {key : κ} {value : α}

theorem extended_insert (unused : table.get? key = none) :
    Extended key value table (table.insert key value) where
  unused := unused
  entered := by simp
  kept := get?_insert_of_absent unused
  no_other {other} differ := by
    rw [get?_insert, if_neg (Ne.symm differ)]

theorem le_max_of_get?_insert (number : κ → Int) {last : Int}
    (bound : ∀ {other old}, table.get? other = some old → number other ≤ last)
    {other : κ} {found : α} (present : (table.insert key value).get? other = some found) :
    number other ≤ max last (number key) := by
  rcases get?_insert_cases present with ⟨rfl, _⟩ | ⟨_, old⟩
  · exact Int.le_max_right _ _
  · exact Int.le_trans (bound old) (Int.le_max_left _ _)

end Table

namespace Records

variable {before after records : Records}

/-! ## What a call does to the records -/

/-- Whatever is stored was stored before under the same number, and the last numbers stand. -/
structure NothingNew (before after : Records) : Prop where
  nodes : ∀ {id node}, after.nodes.get? id = some node →
    ∃ old, before.nodes.get? id = some old ∧ old.id = node.id
  objects : ∀ {ref content}, after.objects.get? ref = some content →
    before.objects.get? ref = some content
  lastNode : after.lastNode = before.lastNode
  lastObject : after.lastObject = before.lastObject

/-- One node or one object is entered, or there is nothing new. -/
inductive Called (before : Records) : Records → Prop where
  | node (node : Node) : Called before (before.insertNode node)
  | object (ref : ContentRef) (content : Content) : Called before (before.insertObject ref content)
  | nothingNew {after : Records} : NothingNew before after → Called before after

theorem Called.refl : Called records records :=
  .nothingNew ⟨fun found => ⟨_, found, rfl⟩, id, rfl, rfl⟩

theorem called_saveNode {parent : Option NodeId} {position : Nat} {content : Option ContentRef}
    {node : Node} (saved : before.saveNode parent position content = .ok (node, after)) :
    Called before after := by
  rcases saveNode_eq_ok.mp saved with ⟨_, _, _, rfl⟩
  exact .node node

theorem called_setPosition {id : NodeId} {position : Nat}
    (moved : before.setPosition id position = .ok after) : Called before after := by
  unfold setPosition at moved
  split at moved
  · rename_i old stored
    rcases Except.ok.inj moved with rfl
    refine .nothingNew ⟨fun {other node} found => ?_, fun found => found, rfl, rfl⟩
    rcases Table.get?_insert_cases found with ⟨rfl, rfl⟩ | ⟨_, found⟩
    · exact ⟨old, stored, rfl⟩
    · exact ⟨node, found, rfl⟩
  · cases moved

theorem called_removeObject {ref : ContentRef}
    (removed : before.removeObject ref = .ok after) : Called before after := by
  unfold removeObject at removed
  split at removed
  · rcases Except.ok.inj removed with rfl
    refine .nothingNew ⟨fun found => ⟨_, found, rfl⟩, fun {other content} found => ?_, rfl, rfl⟩
    simp only [Table.get?_erase] at found
    split at found
    · cases found
    · exact found
  · cases removed

theorem called_removeSubtree {root : NodeId}
    (removed : before.removeSubtree root = .ok after) : Called before after := by
  unfold removeSubtree at removed
  split at removed
  · cases removed
  · rcases Except.ok.inj removed with rfl
    rcases removeBelow_spec _ [root] with ⟨gone, nodes, _, objects, lastNode, lastObject, _⟩
    refine .nothingNew ⟨fun {id node} found => ?_, fun found => ?_, lastNode, lastObject⟩
    · rw [nodes] at found
      split at found
      · cases found
      · exact ⟨node, found, rfl⟩
    · rw [objects] at found
      exact found

/-! ## Numbers up to the last one -/

/-- Nodes are stored under their own numbers, and no number of a stored record is beyond the last
one. -/
structure Numbered (records : Records) : Prop where
  keyed : ∀ {id node}, records.nodes.get? id = some node → node.id = id
  nodes : ∀ {id node}, records.nodes.get? id = some node → id.val ≤ records.lastNode
  objects : ∀ {ref content}, records.objects.get? ref = some content →
    ref.id.val ≤ records.lastObject
  lastNode_nonneg : 0 ≤ records.lastNode
  lastObject_nonneg : 0 ≤ records.lastObject

theorem numbered_empty : Numbered empty where
  keyed found := by cases found
  nodes found := by cases found
  objects found := by cases found
  lastNode_nonneg := Int.le_refl _
  lastObject_nonneg := Int.le_refl _

namespace Numbered

theorem insertNode (numbered : Numbered records) (node : Node) :
    Numbered (records.insertNode node) where
  keyed {id found} present := by
    rcases get?_insertNode_cases present with ⟨rfl, rfl⟩ | ⟨_, old⟩
    · rfl
    · exact numbered.keyed old
  nodes present := Table.le_max_of_get?_insert NodeId.val numbered.nodes present
  objects := numbered.objects
  lastNode_nonneg := Int.le_trans numbered.lastNode_nonneg (Int.le_max_left _ _)
  lastObject_nonneg := numbered.lastObject_nonneg

theorem insertObject (numbered : Numbered records) (ref : ContentRef) (content : Content) :
    Numbered (records.insertObject ref content) where
  keyed := numbered.keyed
  nodes := numbered.nodes
  objects present :=
    Table.le_max_of_get?_insert (fun ref => ref.id.val) numbered.objects present
  lastNode_nonneg := numbered.lastNode_nonneg
  lastObject_nonneg := Int.le_trans numbered.lastObject_nonneg (Int.le_max_left _ _)

theorem nothingNew (numbered : Numbered before) (same : NothingNew before after) :
    Numbered after where
  keyed found := by
    rcases same.nodes found with ⟨old, stored, number⟩
    rw [← number]
    exact numbered.keyed stored
  nodes found := by
    rcases same.nodes found with ⟨old, stored, _⟩
    rw [same.lastNode]
    exact numbered.nodes stored
  objects found := by
    rw [same.lastObject]
    exact numbered.objects (same.objects found)
  lastNode_nonneg := by
    rw [same.lastNode]
    exact numbered.lastNode_nonneg
  lastObject_nonneg := by
    rw [same.lastObject]
    exact numbered.lastObject_nonneg

theorem called (numbered : Numbered before) (called : Called before after) : Numbered after := by
  cases called with
  | node node => exact numbered.insertNode node
  | object ref content => exact numbered.insertObject ref content
  | nothingNew same => exact numbered.nothingNew same

end Numbered

/-- All numbers in use are less than a limit. -/
structure Below (limit : Int) (records : Records) : Prop where
  nodes : ∀ {id node}, records.nodes.get? id = some node → id.val < limit
  objects : ∀ {ref content}, records.objects.get? ref = some content → ref.id.val < limit

/-- The last numbers are less than a limit. -/
def LastBelow (limit : Int) (records : Records) : Prop :=
  records.lastNode < limit ∧ records.lastObject < limit

instance (limit : Int) (records : Records) : Decidable (LastBelow limit records) :=
  inferInstanceAs (Decidable (_ ∧ _))

theorem Numbered.below {limit : Int} (numbered : Numbered records)
    (last : LastBelow limit records) : Below limit records where
  nodes found := Int.lt_of_le_of_lt (numbered.nodes found) last.1
  objects found := Int.lt_of_le_of_lt (numbered.objects found) last.2

/-- A last number that a call raises is the number of a record that it stored. -/
theorem Called.lastBelow {limit : Int} (called : Called before after)
    (last : LastBelow limit before) (below : Below limit after) : LastBelow limit after := by
  cases called with
  | node node =>
      have entered : (before.insertNode node).nodes.get? node.id = some node := by simp
      exact ⟨Int.max_lt.mpr ⟨last.1, below.nodes entered⟩, last.2⟩
  | object ref content =>
      have entered : (before.insertObject ref content).objects.get? ref = some content := by simp
      exact ⟨last.1, Int.max_lt.mpr ⟨last.2, below.objects entered⟩⟩
  | nothingNew same =>
      rcases last with ⟨lastNode, lastObject⟩
      exact ⟨same.lastNode ▸ lastNode, same.lastObject ▸ lastObject⟩

/-! ## New records -/

/-- A node is stored under the number after the last one.  No stored node had it, and no record is
replaced. -/
structure NodeAdded (node : Node) (before after : Records) : Prop where
  number : node.id.val = before.lastNode + 1
  unused : ∀ {id other}, before.nodes.get? id = some other → other.id ≠ node.id
  nodes : Table.Extended node.id node before.nodes after.nodes
  objects : after.objects = before.objects

/-- An object is stored under the number after the last one.  No stored object of any kind had it,
and no record is replaced. -/
structure ObjectAdded (ref : ContentRef) (content : Content) (before after : Records) : Prop where
  kind : ref.kind = content.kind
  number : ref.id.val = before.lastObject + 1
  unused : ∀ {other object}, before.objects.get? other = some object → other.id ≠ ref.id
  objects : Table.Extended ref content before.objects after.objects
  nodes : after.nodes = before.nodes

namespace Numbered

theorem nodeAdded (numbered : Numbered before) {parent : Option NodeId} {position : Nat}
    {content : Option ContentRef} {node : Node}
    (saved : before.saveNode parent position content = .ok (node, after)) :
    NodeAdded node before after := by
  rcases saveNode_eq_ok.mp saved with ⟨_, _, new, rfl⟩
  have number : node.id.val = before.lastNode + 1 := by rw [new]
  have absent : before.nodes.get? node.id = none :=
    Table.get?_eq_none_of_lt NodeId.val numbered.nodes (by omega)
  refine ⟨number, fun {id other} found same => ?_, Table.extended_insert absent, rfl⟩
  rw [← same, numbered.keyed found, found] at absent
  cases absent

theorem objectAdded (numbered : Numbered before) (content : Content) :
    ObjectAdded (before.saveObject content).1 content before (before.saveObject content).2 := by
  have number : (before.saveObject content).1.id.val = before.lastObject + 1 := rfl
  have absent : before.objects.get? (before.saveObject content).1 = none :=
    Table.get?_eq_none_of_lt (fun ref => ref.id.val) numbered.objects (by omega)
  refine ⟨rfl, number, fun {other object} found same => ?_, Table.extended_insert absent, rfl⟩
  have bound := numbered.objects found
  rw [same] at bound
  omega

end Numbered

end Records

open Records

variable {α : Type} {store : Store}

/-! ## Calls -/

theorem Store.called_write {update : Records → Except StoreError (α × Records)}
    (succeeds : ∀ {value after}, update store.records = .ok (value, after) →
      Called store.records after) : Called store.records (write update store).2.records := by
  unfold write
  split
  · rename_i updated
    exact succeeds updated
  · exact .refl

theorem Store.called_write_unit {update : Records → Except StoreError Records}
    (succeeds : ∀ {after}, update store.records = .ok after → Called store.records after) :
    Called store.records
      (write (fun records => (update records).map ((), ·)) store).2.records := by
  refine called_write fun {value after} updated => succeeds ?_
  cases outcome : update store.records with
  | error cause =>
      rw [outcome] at updated
      cases updated
  | ok result =>
      rw [outcome] at updated
      cases updated
      rfl

theorem Call.called (made : Call α) (store : Store) :
    Called store.records (made.run store).2.records := by
  cases made with
  | fetch read => exact .refl
  | saveNode parent position content => exact called_write called_saveNode
  | saveObject content => exact .object _ content
  | insertNode node => exact .node node
  | insertObject ref content => exact .object ref content
  | updatePosition id position => exact called_write_unit called_setPosition
  | deleteObject ref =>
      show Called _ (Store.deleteObject ref store).2.records
      unfold Store.deleteObject
      split
      · exact .refl
      · exact called_write_unit called_removeObject
  | deleteSubtree root => exact called_write_unit called_removeSubtree
  | refuse ref => exact .refl

/-! ## Words -/

/-- A last number is a 64-bit word, and adding one to the word does not leave the range. -/
def Counts (last : Int) : Prop := ∃ word : Int64, word.toInt = last ∧ (word + 1).toInt = last + 1

theorem counts_of_lt {last : Int} (nonneg : 0 ≤ last) (below : last < Int64.maxValue.toInt) :
    Counts last := by
  have greatest : Int64.maxValue.toInt = 2 ^ 63 - 1 := rfl
  have next : Int64.ofInt last + 1 = Int64.ofInt (last + 1) := (Int64.ofInt_add last 1).symm
  refine ⟨Int64.ofInt last, Int64.toInt_ofInt_of_le (by omega) (by omega), ?_⟩
  rw [next, Int64.toInt_ofInt_of_le (by omega) (by omega)]

/-! ## Every moment of a script -/

namespace Script

theorem numbered (script : Script α) :
    ∀ moment ∈ script.moments Store.empty, Numbered moment.records :=
  script.holds_at_moments (fun _ => True)
    (fun made _ before _ => before.called (made.called _)) numbered_empty fun _ _ => trivial

/-- While the script runs on an empty store, all numbers in use are less than the limit. -/
def StaysBelow (script : Script α) (limit : Int) : Prop :=
  ∀ moment ∈ script.moments Store.empty, Below limit moment.records

/-- The last numbers are no more than what was in use at some moment, so that they tell whether a
positive limit is ever reached. -/
theorem staysBelow_iff {limit : Int} (positive : 0 < limit) (script : Script α) :
    script.StaysBelow limit ↔
      ∀ moment ∈ script.moments Store.empty, LastBelow limit moment.records := by
  constructor
  · intro below
    -- A raised last number is in use at the next moment, where the limit holds.
    exact script.holds_at_moments (fun moment => Below limit moment.records)
      (fun made _ last reached => (made.called _).lastBelow last reached) ⟨positive, positive⟩ below
  · intro last moment passed
    exact (script.numbered moment passed).below (last moment passed)

/--
Whatever was called before, in whatever order and nesting of transactions, a node is saved under a
number that no stored node has and an object under a number that no stored object of any kind has;
nothing that is stored is replaced.  If all numbers in use stay below the greatest 64-bit word, the
last numbers are such words, and so are the numbers that come next.
-/
theorem numbers_fresh (script : Script α) {moment : Store}
    (passed : moment ∈ script.moments Store.empty) :
    (∀ {parent position content node after},
      Store.saveNode parent position content moment = (.ok node, after) →
        NodeAdded node moment.records after.records) ∧
      (∀ content, ∃ ref after, Store.saveObject content moment = (.ok ref, after) ∧
        ObjectAdded ref content moment.records after.records) ∧
      (script.StaysBelow Int64.maxValue.toInt →
        Counts moment.records.lastNode ∧ Counts moment.records.lastObject) := by
  have numbered := script.numbered moment passed
  refine ⟨fun saved => ?_, fun content => ?_, fun below => ?_⟩
  · rcases Store.saveNode_eq_ok.mp saved with ⟨records, made, rfl⟩
    exact numbered.nodeAdded made
  · exact ⟨_, _, rfl, numbered.objectAdded content⟩
  · rcases (staysBelow_iff (by decide) script).mp below moment passed with ⟨lastNode, lastObject⟩
    exact ⟨counts_of_lt numbered.lastNode_nonneg lastNode,
      counts_of_lt numbered.lastObject_nonneg lastObject⟩

/-- A node and a text are entered under numbers of their own.  A transaction stores a node below
the first one and, in a transaction that commits, a text; then it is undone. -/
def undone : Script Unit :=
  .call (.insertNode ⟨⟨7⟩, none, 0, none⟩) fun _ =>
    .call (.insertObject ⟨.text, ⟨-3⟩⟩ (.text "a")) fun _ =>
      .transaction
        (.transaction (.call (.saveObject (.text "b")) .give) fun saved =>
          .call (.saveNode (some ⟨7⟩) 0 saved.toOption) fun _ =>
            .give (.error (.store (.transaction "undone")))) .give

/-- The numbers that the transaction gave are given again. -/
theorem numbers_fresh_undone :
    (∃ node after, Store.saveNode none 0 none (undone.run Store.empty).2 = (.ok node, after) ∧
      node.id = ⟨8⟩ ∧ NodeAdded node (undone.run Store.empty).2.records after.records) ∧
    (∃ ref after, Store.saveObject (.boolean true) (undone.run Store.empty).2 = (.ok ref, after) ∧
      ref.id = ⟨1⟩ ∧
      ObjectAdded ref (.boolean true) (undone.run Store.empty).2.records after.records) ∧
    undone.StaysBelow Int64.maxValue.toInt ∧ Counts 7 ∧ Counts 0 := by
  have below : undone.StaysBelow Int64.maxValue.toInt :=
    (staysBelow_iff (by decide) undone).mpr (by decide)
  have saved_node : Store.saveNode none 0 none (undone.run Store.empty).2 =
      (.ok ⟨⟨8⟩, none, 0, none⟩, _) := rfl
  rcases numbers_fresh undone (end_mem_moments undone Store.empty) with ⟨node, object, words⟩
  refine ⟨⟨_, _, saved_node, rfl, node saved_node⟩, ?_, below, words below⟩
  rcases object (.boolean true) with ⟨ref, after, saved, added⟩
  refine ⟨ref, after, saved, ?_, added⟩
  rcases saveObject_eq_ok.mp saved with ⟨rfl, _⟩
  rfl

end Script

end RuleTree
