import RuleTree.Proofs.Tree.Moving
import RuleTree.Proofs.Reading.Replica

/-!
# Hydrating a store

All nodes and objects of a store are entered into an empty one under their numbers and addresses, in
any order, children before their parents included.  The lists of children come out in the order of
the insertions, but the children are the same, so the new store is a replica of the old one
(`Records.replica_hydrated`): every reader answers the same, every tree has the same value and the
same document, and new numbers differ from those that were entered (`Reachable.hydrates`).
-/

namespace RuleTree

open Step Records

/-! ## Tables from their entries -/

namespace Table

variable {κ α : Type} [Ord κ] [Std.LawfulEqOrd κ]

theorem nodup_keys (table : Table κ α) : (table.entries.map Prod.fst).Nodup := by
  refine List.pairwise_map.mpr (table.sorted.imp ?_)
  intro first second before same
  rw [same, Std.ReflOrd.compare_self] at before
  cases before

variable [DecidableEq κ] [Std.TransOrd κ] {entries : List (κ × α)}

/-- What is found after entries with different keys were inserted. -/
theorem get?_foldl_insert (distinct : (entries.map Prod.fst).Nodup) (table : Table κ α) (key : κ)
    (value : α) :
    (entries.foldl (fun table entry => table.insert entry.1 entry.2) table).get? key =
        some value ↔
      (key, value) ∈ entries ∨
        key ∉ entries.map Prod.fst ∧ table.get? key = some value := by
  induction entries generalizing table with
  | nil => simp
  | cons entry rest ih =>
      rcases List.nodup_cons.mp distinct with ⟨new, distinct⟩
      rw [List.foldl_cons, ih distinct, get?_insert]
      by_cases here : entry.1 = key
      · subst here
        have absent : (entry.1, value) ∉ rest := fun member =>
          new (List.mem_map.mpr ⟨_, member, rfl⟩)
        simp [new, absent, Prod.ext_iff, eq_comm]
      · simp [here, Prod.ext_iff, Ne.symm here]

/-- The entries of a table give the table, in whatever order they are inserted. -/
theorem ofList_of_perm {table : Table κ α} (perm : entries.Perm table.entries) :
    ofList entries = table := by
  have distinct : (entries.map Prod.fst).Nodup := (perm.map _).nodup_iff.mpr table.nodup_keys
  apply ext_get?
  intro key
  apply Option.ext
  intro value
  unfold ofList
  rw [get?_foldl_insert distinct, perm.mem_iff, mem_entries_iff]
  simp

end Table

/-! ## Entering records -/

/-- A node, or an object under its address. -/
inductive Record where
  | node (node : Node)
  | object (ref : ContentRef) (content : Content)

namespace Records

/-- Enters one record under its own number or address. -/
def enter (records : Records) : Record → Records
  | .node node => records.insertNode node
  | .object ref content => records.insertObject ref content

/-- The store that records lead to when they are entered one after another. -/
def hydrated (entered : List Record) : Records := entered.foldl enter empty

/-- All nodes and objects that are stored. -/
def all (records : Records) : List Record :=
  records.nodes.values.map .node ++ records.objects.entries.map fun entry => .object entry.1 entry.2

/-- The nodes among records. -/
def nodesIn (entered : List Record) : List Node :=
  entered.filterMap fun
    | .node node => some node
    | .object _ _ => none

/-- The objects among records, with their addresses. -/
def objectsIn (entered : List Record) : List (ContentRef × Content) :=
  entered.filterMap fun
    | .node _ => none
    | .object ref content => some (ref, content)

variable {records : Records} {entered : List Record}

theorem nodesIn_all (records : Records) : nodesIn records.all = records.nodes.values := by
  unfold nodesIn all
  rw [List.filterMap_append, List.filterMap_map, List.filterMap_map]
  simp

theorem objectsIn_all (records : Records) : objectsIn records.all = records.objects.entries := by
  unfold objectsIn all
  rw [List.filterMap_append, List.filterMap_map, List.filterMap_map]
  simp

/-- What a run of insertions has entered. -/
theorem foldl_enter (entered : List Record) (records : Records) :
    (entered.foldl enter records).nodes =
        ((nodesIn entered).map fun node => (node.id, node)).foldl
          (fun table entry => table.insert entry.1 entry.2) records.nodes ∧
      (entered.foldl enter records).objects =
        (objectsIn entered).foldl (fun table entry => table.insert entry.1 entry.2)
          records.objects ∧
      ∀ parent, (entered.foldl enter records).childList parent =
        records.childList parent ++
          ((nodesIn entered).filter fun node => node.parent = some parent).map Node.id := by
  induction entered generalizing records with
  | nil => simp [nodesIn, objectsIn]
  | cons record rest ih =>
      rcases ih (records.enter record) with ⟨nodes, objects, children⟩
      cases record with
      | node node =>
          refine ⟨nodes, objects, fun parent => ?_⟩
          rw [List.foldl_cons, children, enter, childList_insertNode]
          by_cases above : node.parent = some parent
          · simp [nodesIn, above]
          · simp [nodesIn, above]
      | object ref content => exact ⟨nodes, objects, children⟩

/-- The last numbers never fall, and they are no less than those that were entered. -/
theorem foldl_enter_last (entered : List Record) (records : Records) :
    records.lastNode ≤ (entered.foldl enter records).lastNode ∧
      records.lastObject ≤ (entered.foldl enter records).lastObject ∧
      (∀ node ∈ nodesIn entered, node.id.val ≤ (entered.foldl enter records).lastNode) ∧
      ∀ entry ∈ objectsIn entered,
        entry.1.id.val ≤ (entered.foldl enter records).lastObject := by
  induction entered generalizing records with
  | nil => simp [nodesIn, objectsIn]
  | cons record rest ih =>
      rcases ih (records.enter record) with ⟨lastNode, lastObject, nodes, objects⟩
      rw [List.foldl_cons]
      cases record with
      | node node =>
          have entered : max records.lastNode node.id.val ≤ _ := lastNode
          exact ⟨(le_max_left _ _).trans entered, lastObject,
            List.forall_mem_cons.mpr ⟨(le_max_right _ _).trans entered, nodes⟩, objects⟩
      | object ref content =>
          have entered : max records.lastObject ref.id.val ≤ _ := lastObject
          exact ⟨lastNode, (le_max_left _ _).trans entered, nodes,
            List.forall_mem_cons.mpr ⟨(le_max_right _ _).trans entered, objects⟩⟩

/-! ## Replicas by insertion -/

/-- The stored nodes under their own numbers. -/
theorem Linked.entries_eq (linked : Linked records) :
    records.nodes.values.map (fun node => (node.id, node)) = records.nodes.entries := by
  unfold Table.values
  rw [List.map_map]
  have same : ∀ entry ∈ records.nodes.entries, (entry.2.id, entry.2) = id entry := by
    rintro ⟨id, node⟩ member
    rw [linked.keyed ((records.nodes.mem_entries_iff id node).mp member)]
    rfl
  exact (List.map_congr_left same).trans (List.map_id _)

theorem Linked.mem_values (linked : Linked records) {node : Node} :
    node ∈ records.nodes.values ↔ records.nodes.get? node.id = some node := by
  rw [← Table.mem_entries_iff, ← linked.entries_eq]
  simp [Prod.ext_iff]

/-- The nodes that name a parent are its children. -/
theorem Linked.childList_perm (linked : Linked records) (parent : NodeId) :
    ((records.nodes.values.filter fun node => node.parent = some parent).map Node.id).Perm
      (records.childList parent) := by
  have distinct : (records.nodes.values.map Node.id).Nodup := by
    have keys := records.nodes.nodup_keys
    rw [← linked.entries_eq, List.map_map] at keys
    exact keys
  refine (List.perm_ext_iff_of_nodup (distinct.sublist (List.filter_sublist.map _))
    (linked.once parent)).mpr fun id => ?_
  simp only [List.mem_map, List.mem_filter, linked.mem_values, decide_eq_true_eq]
  constructor
  · rintro ⟨node, ⟨found, above⟩, rfl⟩
    exact linked.listed found above
  · intro member
    rcases linked.owned member with ⟨node, found, above⟩
    rcases linked.keyed found with rfl
    exact ⟨node, ⟨found, above⟩, rfl⟩

/-- However the records of a store are entered, they lead to a replica. -/
theorem replica_hydrated (linked : Linked records) (all : entered.Perm records.all) :
    Replica records (hydrated entered) := by
  have nodes : (nodesIn entered).Perm records.nodes.values :=
    nodesIn_all records ▸ all.filterMap _
  have objects : (objectsIn entered).Perm records.objects.entries :=
    objectsIn_all records ▸ all.filterMap _
  rcases foldl_enter entered empty with ⟨nodes_eq, objects_eq, children_eq⟩
  rcases foldl_enter_last entered empty with ⟨_, counted, lastNode, lastObject⟩
  refine ⟨?_, ?_, fun parent => ?_, fun {id node} found => ?_, fun {ref content} found => ?_,
    counted⟩
  · refine nodes_eq.trans (Table.ofList_of_perm ?_)
    exact linked.entries_eq ▸ nodes.map _
  · exact objects_eq.trans (Table.ofList_of_perm objects)
  · have list : (hydrated entered).childList parent = _ := children_eq parent
    rw [list]
    exact ((nodes.filter _).map _).trans (linked.childList_perm parent)
  · rcases linked.keyed found with rfl
    exact lastNode node (nodes.mem_iff.mpr (linked.mem_values.mpr found))
  · exact lastObject (ref, content)
      (objects.mem_iff.mpr ((records.objects.mem_entries_iff ref content).mpr found))

end Records

/-- Everything that reads two stores gets the same from both: the readers of the store themselves,
and whoever evaluates a tree or writes it as a document. -/
structure Indistinguishable [Host] (before after : Store) : Prop where
  loadNode : ∀ id, (Store.loadNode id after).1 = (Store.loadNode id before).1
  loadChildren : ∀ parent,
    (Store.loadChildren parent after).1 = (Store.loadChildren parent before).1
  loadSubtree : ∀ root, (Store.loadSubtree root after).1 = (Store.loadSubtree root before).1
  loadObject : ∀ ref, (Store.loadObject ref after).1 = (Store.loadObject ref before).1
  loadObjects : ∀ kind ids,
    (Store.loadObjects kind ids after).1 = (Store.loadObjects kind ids before).1
  loadUsesOf : ∀ definition,
    (Store.loadUsesOf definition after).1 = (Store.loadUsesOf definition before).1
  isAttached : ∀ ref, (Store.isAttached ref after).1 = (Store.isAttached ref before).1
  interpret : ∀ node context,
    interpret after.records node context = interpret before.records node context
  build : ∀ access ids node, Block.build after.records access ids node Reading.start =
    Block.build before.records access ids node Reading.start

theorem Records.Replica.indistinguishable [Host] {before after : Store}
    (replica : Replica before.records after.records) (tidy : Tidy before.records) :
    Indistinguishable before after where
  loadNode id := congrArg (Except.mapError Error.store) (replica.node_eq id)
  loadChildren parent := congrArg (Except.mapError Error.store) (replica.childrenOf_eq tidy parent)
  loadSubtree root := congrArg (Except.mapError Error.store) (replica.subtree_eq tidy root)
  loadObject ref := congrArg (Except.mapError Error.store) (replica.object_eq ref)
  loadObjects kind ids := congrArg (Except.mapError Error.store) (replica.objectsOf_eq kind ids)
  loadUsesOf definition := congrArg Except.ok (replica.usesOf_eq definition)
  isAttached ref := congrArg Except.ok (replica.isAttached_eq ref)
  interpret := replica.interpret_eq tidy
  build := replica.build_eq tidy

variable {store : Store} {entered : List Record}

/--
The records of a store, entered into an empty one in any order, make a store that cannot be told
from it by reading, and the next numbers there belong to none of them.
-/
theorem Reachable.hydrates [Host] (reachable : Reachable store)
    (all : entered.Perm store.records.all) :
    Indistinguishable store { Store.empty with records := hydrated entered } ∧
      (∀ parent position content new after,
        Store.saveNode parent position content { Store.empty with records := hydrated entered } =
            (.ok new, after) →
          store.records.nodes.get? new.id = none) ∧
      ∀ content new after,
        Store.saveObject content { Store.empty with records := hydrated entered } =
            (.ok new, after) →
          ∀ kind, store.records.objects.get? ⟨kind, new.id⟩ = none := by
  have tidy := reachable.tidy
  have replica := replica_hydrated tidy.linked all
  refine ⟨replica.indistinguishable tidy, ?_, ?_⟩
  · intro parent position content new after saved
    rcases Store.saveNode_eq_ok.mp saved with ⟨records, made, _⟩
    rcases saveNode_eq_ok.mp made with ⟨_, _, rfl, _⟩
    rw [← replica.nodes]
    exact (replica.linked tidy.linked).get?_fresh (Int.lt_succ _)
  · intro content new after saved kind
    rcases Store.saveObject_eq_ok.mp saved with ⟨rfl, _⟩
    cases found : store.records.objects.get? ⟨kind, _⟩ with
    | none => rfl
    | some object =>
        have bound := replica.lastObject found
        simp only at bound
        omega

/-- Three children are entered before their parent, the last one first. -/
theorem hydrates_children_first :
    (hydrated siblingStore.records.all.reverse).childList ⟨1⟩ = [⟨4⟩, ⟨3⟩, ⟨2⟩] ∧
      (Store.loadChildren ⟨1⟩
        { Store.empty with records := hydrated siblingStore.records.all.reverse }).1 =
          .ok [⟨2⟩, ⟨3⟩, ⟨4⟩] := by
  have reachable : Reachable siblingStore :=
    .addChild _ _ (.addChild _ _ (.addChild _ _ (.addRoot none .empty)))
  refine ⟨by cbv, ?_⟩
  rw [(reachable.hydrates (List.reverse_perm _)).1.loadChildren]
  cbv

end RuleTree
