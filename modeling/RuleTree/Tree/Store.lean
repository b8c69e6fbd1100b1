import RuleTree.Tree.Records

/-!
# The store

A store answers reads and carries out writes on its records. Each read counts as one fetch, whether
or not it succeeds. A transaction puts the records back as they were if it fails; what it read stays
counted, and deletions stay refused that were refused before.
-/

namespace RuleTree

/-- Records, the number of reads so far, and the objects whose deletion is refused. -/
structure Store where
  records : Records
  fetches : Nat
  refused : List ContentRef

/-- A step on a store, which may fail; what it did before it failed stays done. -/
abbrev Action := ExceptT Error (StateM Store)

namespace Store

/-- A store in which nothing was ever stored. -/
def empty : Store := ⟨.empty, 0, []⟩

instance : Inhabited Store := ⟨empty⟩

/-- An answer of the store as a step that changes nothing. -/
def give {α : Type} (answer : Except StoreError α) : Action α := fun store =>
  (answer.mapError .store, store)

/-- One fetch. -/
def fetch {α : Type} (read : Records → Except StoreError α) : Action α := fun store =>
  ((read store.records).mapError .store, { store with fetches := store.fetches + 1 })

/-- A write that has a result; it fails as a whole or not at all. -/
def write {α : Type} (update : Records → Except StoreError (α × Records)) : Action α := fun store =>
  match update store.records with
  | .ok (result, records) => (.ok result, { store with records })
  | .error cause => (.error (.store cause), store)

/-- The node with a number. -/
def loadNode (id : NodeId) : Action Node := fetch fun records => records.node id

/-- The children of a node in the order of their positions. -/
def loadChildren (parent : NodeId) : Action (List NodeId) :=
  fetch fun records => records.childrenOf parent

/-- A node and everything below it, in one fetch. -/
def loadSubtree (root : NodeId) : Action (List Node) := fetch fun records => records.subtree root

/-- The object with an address. -/
def loadObject (ref : ContentRef) : Action Content := fetch fun records => records.object ref

/-- Several objects of one kind, in one fetch. -/
def loadObjects (kind : Kind) (ids : List ObjectId) : Action (List (ObjectId × Content)) :=
  fetch fun records => records.objectsOf kind ids

/-- The objects that use a variable with the given definition. -/
def loadUsesOf (definition : ObjectId) : Action (List ContentRef) :=
  fetch fun records => .ok (records.usesOf definition)

/-- Whether some node wraps an object. -/
def isAttached (ref : ContentRef) : Action Bool := fetch fun records => .ok (records.isAttached ref)

/-- Stores a new node. -/
def saveNode (parent : Option NodeId) (position : Nat) (content : Option ContentRef) :
    Action Node :=
  write fun records => records.saveNode parent position content

/-- Changes the position of a node. -/
def updatePosition (id : NodeId) (position : Nat) : Action Unit :=
  write fun records => (records.setPosition id position).map ((), ·)

/-- Stores a new object. -/
def saveObject (content : Content) : Action ContentRef :=
  write fun records => .ok (records.saveObject content)

/-- Deletes an object, unless that is refused. -/
def deleteObject (ref : ContentRef) : Action Unit := fun store =>
  if ref ∈ store.refused then (.error (.store (.cannotDelete ref)), store)
  else write (fun records => (records.removeObject ref).map ((), ·)) store

/-- Deletes a node and everything below it, but no objects. -/
def deleteSubtree (root : NodeId) : Action Unit :=
  write fun records => (records.removeSubtree root).map ((), ·)

/-- Runs a step so that either all of its writes persist or none do. -/
def transaction {α : Type} (step : Action α) : Action α := fun store =>
  match step store with
  | (.ok result, after) => (.ok result, after)
  | (.error cause, after) => (.error cause, { after with records := store.records })

/-- A transaction that fails leaves the records as they were. -/
theorem records_transaction_of_error {α : Type} {step : Action α} {store : Store} {cause : Error}
    (failed : (transaction step store).1 = .error cause) :
    (transaction step store).2.records = store.records := by
  unfold transaction at failed ⊢
  split at failed
  · cases failed
  · rfl

end Store

end RuleTree
