import RuleTree.Block.Creation
import RuleTree.Proofs.Outcome
import RuleTree.Tree.Edit

/-!
# What a successful step did

A step on a store that gives a result is taken apart here: a fetch into the answer of the records,
a write into the records that it leaves.  Transactions are transparent to
success, so that every fact about an edit is a fact about the steps inside of it; a transaction that
fails leaves the records alone whatever the steps inside of it did.
-/

theorem RuleTree.Records.object_eq_ok {records : Records} {ref : ContentRef} {content : Content} :
    records.object ref = .ok content ↔ records.objects.get? ref = some content := by
  unfold object
  cases records.objects.get? ref <;> simp

theorem RuleTree.Records.node_eq_ok {records : Records} {id : NodeId} {found : Node} :
    records.node id = .ok found ↔ records.nodes.get? id = some found := by
  unfold node
  cases records.nodes.get? id <;> simp

theorem RuleTree.Records.childrenOf_eq_ok {records : Records} {parent : NodeId}
    {ids : List NodeId} : records.childrenOf parent = .ok ids ↔
      (∃ node, records.nodes.get? parent = some node) ∧ records.orderedChildren parent = ids := by
  unfold childrenOf Table.contains
  cases records.nodes.get? parent <;> simp

namespace RuleTree.Store

open Step

variable {α β : Type} {store after : Store}

theorem give_eq_ok {answer : Except StoreError α} {result : α} :
    give answer store = (.ok result, after) ↔ answer = .ok result ∧ store = after := by
  unfold give
  rw [Prod.mk.injEq, Answer.mapError_eq_ok]

theorem fetch_eq_ok {read : Records → Except StoreError α} {result : α} :
    fetch read store = (.ok result, after) ↔
      read store.records = .ok result ∧ { store with fetches := store.fetches + 1 } = after := by
  unfold fetch
  rw [Prod.mk.injEq, Answer.mapError_eq_ok]

theorem write_eq_ok {update : Records → Except StoreError (α × Records)} {result : α} :
    write update store = (.ok result, after) ↔
      ∃ records, update store.records = .ok (result, records) ∧
        { store with records := records } = after := by
  unfold write
  rcases update store.records with cause | ⟨value, records⟩
  · simp
  · simp only [outcome_eq, Except.ok.injEq, Prod.mk.injEq]
    constructor
    · rintro ⟨rfl, rfl⟩
      exact ⟨records, ⟨rfl, rfl⟩, rfl⟩
    · rintro ⟨records', ⟨rfl, rfl⟩, rfl⟩
      exact ⟨rfl, rfl⟩

theorem transaction_eq_ok {step : Action α} {result : α} :
    transaction step store = (.ok result, after) ↔ step store = (.ok result, after) := by
  unfold transaction
  rcases step store with ⟨_ | value, middle⟩ <;> simp

theorem fails_transaction {step : Action α} {cause : Error}
    (failed : (transaction step store).1 = .error cause) : (step store).1 = .error cause := by
  unfold transaction at failed
  split at failed
  · cases failed
  · rename_i outcome
    rw [outcome]
    exact failed

theorem saveNode_eq_ok {parent : Option NodeId} {position : Nat} {content : Option ContentRef}
    {node : Node} :
    saveNode parent position content store = (.ok node, after) ↔
      ∃ records, store.records.saveNode parent position content = .ok (node, records) ∧
        { store with records := records } = after :=
  write_eq_ok

theorem saveObject_eq_ok {content : Content} {ref : ContentRef} :
    saveObject content store = (.ok ref, after) ↔
      ref = ⟨content.kind, ⟨store.records.lastObject + 1⟩⟩ ∧
        { store with records := store.records.insertObject ref content } = after := by
  unfold saveObject
  rw [write_eq_ok]
  simp only [Records.saveObject, Except.ok.injEq, Prod.mk.injEq]
  constructor
  · rintro ⟨records, ⟨rfl, rfl⟩, rfl⟩
    exact ⟨rfl, rfl⟩
  · rintro ⟨rfl, rfl⟩
    exact ⟨_, ⟨rfl, rfl⟩, rfl⟩

theorem deleteObject_eq_ok {ref : ContentRef} {done : Unit} :
    deleteObject ref store = (.ok done, after) ↔
      ref ∉ store.refused ∧ store.records.objects.contains ref ∧
        { store with records :=
            { store.records with objects := store.records.objects.erase ref } } = after := by
  unfold deleteObject
  by_cases refused : ref ∈ store.refused
  · simp [refused]
  · simp only [refused, if_false, write_eq_ok, Records.removeObject]
    split
    · rename_i present
      simp only [Except.map, Except.ok.injEq, Prod.mk.injEq, not_false_eq_true, true_and]
      constructor
      · rintro ⟨records, rfl, rfl⟩
        exact ⟨present, rfl⟩
      · rintro ⟨_, rfl⟩
        exact ⟨_, rfl, rfl⟩
    · rename_i absent
      simp [Except.map, absent]

theorem updatePosition_eq_ok {id : NodeId} {position : Nat} {done : Unit} :
    updatePosition id position store = (.ok done, after) ↔
      ∃ node, store.records.nodes.get? id = some node ∧
        { store with records :=
            { store.records with
              nodes := store.records.nodes.insert id { node with position } } } = after := by
  unfold updatePosition
  rw [write_eq_ok]
  unfold Records.setPosition
  cases store.records.nodes.get? id with
  | none => simp [Except.map]
  | some node =>
    simp only [Except.map, Except.ok.injEq, Prod.mk.injEq, Option.some.injEq]
    constructor
    · rintro ⟨records, ⟨_, rfl⟩, rfl⟩
      exact ⟨node, rfl, rfl⟩
    · rintro ⟨node', rfl, rfl⟩
      exact ⟨_, ⟨trivial, rfl⟩, rfl⟩

theorem deleteSubtree_eq_ok {root : NodeId} {done : Unit} :
    deleteSubtree root store = (.ok done, after) ↔
      ∃ records, store.records.removeSubtree root = .ok records ∧
        { store with records := records } = after := by
  unfold deleteSubtree
  rw [write_eq_ok]
  cases store.records.removeSubtree root with
  | error cause => simp [Except.map]
  | ok records =>
    simp only [Except.map, Except.ok.injEq, Prod.mk.injEq]
    constructor
    · rintro ⟨records', ⟨_, rfl⟩, rfl⟩
      exact ⟨records, rfl, rfl⟩
    · rintro ⟨records', rfl, rfl⟩
      exact ⟨_, ⟨trivial, rfl⟩, rfl⟩

end RuleTree.Store

theorem RuleTree.Creation.give_eq_ok {α : Type} {answer : Except CreationError α} {result : α}
    {store after : Store} :
    Creation.give answer store = (.ok result, after) ↔ answer = .ok result ∧ store = after := by
  unfold Creation.give
  rw [Prod.mk.injEq, Answer.mapError_eq_ok]
