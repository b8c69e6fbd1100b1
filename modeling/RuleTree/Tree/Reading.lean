import RuleTree.Tree.Snapshot
import RuleTree.Tree.Store

/-!
# Two ways to read a tree

Trees are read through a snapshot, which loads a whole subtree when one of its nodes is asked for
first, or directly, with one fetch for each node and object. Evaluating and writing a tree work with
either way.
-/

namespace RuleTree

/-- How a tree is read. -/
inductive Access where
  /-- Through the snapshot, which is filled on the way. -/
  | cached
  /-- Node by node. -/
  | direct
deriving DecidableEq

namespace Reading

variable (records : Records)

/-! ## Through the snapshot -/

/-- Loads the subtree below a node unless its children are known. -/
def ensure (id : NodeId) : ReadM Unit := do
  markOpened
  let snapshot ← snapshotNow
  if snapshot.covers id then pure () else load records id

/-- The loaded nodes with the given numbers. -/
def loadedNodes (snapshot : Snapshot) : List NodeId → Except StoreError (List Node)
  | [] => .ok []
  | id :: rest =>
    match snapshot.nodes.get? id with
    | none => .error (.nodeNotFound id)
    | some node => (loadedNodes snapshot rest).map (node :: ·)

/-- The children of a node in order. -/
def cachedChildren (node : Node) : ReadM (List Node) := do
  ensure records node.id
  let snapshot ← snapshotNow
  match snapshot.children.get? node.id with
  | none => give (.error (.nodeNotFound node.id))
  | some ids => give (loadedNodes snapshot ids)

/-- An object; one that was not loaded with a subtree costs a fetch. -/
def cachedObject (ref : ContentRef) : ReadM Content := do
  markOpened
  let snapshot ← snapshotNow
  match snapshot.objects.get? ref with
  | some content => pure content
  | none =>
    let content ← fetch (records.object ref)
    modifySnapshot fun s => { s with objects := s.objects.insert ref content }
    pure content

/-- The object that a node wraps. -/
def cachedContent (node : Node) : ReadM (Option Content) := do
  match node.content with
  | none => pure none
  | some ref =>
    ensure records node.id
    some <$> cachedObject records ref

/-- The node with a number. -/
def cachedNode (id : NodeId) : ReadM Node := do
  ensure records id
  let snapshot ← snapshotNow
  match snapshot.nodes.get? id with
  | some node => pure node
  | none => give (.error (.nodeNotFound id))

/-- The node that wraps an object, if it lies in a subtree that was loaded. -/
def ownerOf (reading : Reading) (ref : ContentRef) : Option Node :=
  (reading.snapshot.owners.get? ref).bind reading.snapshot.nodes.get?

/-! ## Node by node -/

/-- The nodes with the given numbers. -/
def directNodes : List NodeId → ReadM (List Node)
  | [] => pure []
  | id :: rest => do
    let node ← fetch (records.node id)
    let nodes ← directNodes rest
    pure (node :: nodes)

/-- The children of a node in order. -/
def directChildren (node : Node) : ReadM (List Node) := do
  directNodes records (← fetch (records.childrenOf node.id))

/-! ## Either way -/

/-- The node with a number. -/
def node (access : Access) (id : NodeId) : ReadM Node :=
  match access with
  | .cached => cachedNode records id
  | .direct => fetch (records.node id)

/-- The children of a node in order. -/
def children (access : Access) (node : Node) : ReadM (List Node) :=
  match access with
  | .cached => cachedChildren records node
  | .direct => directChildren records node

/-- An object by its address. -/
def object (access : Access) (ref : ContentRef) : ReadM Content :=
  match access with
  | .cached => cachedObject records ref
  | .direct => fetch (records.object ref)

/-- The object that a node wraps. -/
def content (access : Access) (node : Node) : ReadM (Option Content) :=
  match access with
  | .cached => cachedContent records node
  | .direct =>
    match node.content with
    | none => pure none
    | some ref => some <$> fetch (records.object ref)

end Reading

/-- Reads from the records of a store as they are now; its fetches count for the store. -/
def Store.reading {α : Type} (read : Records → ReadM α) : Action α := fun store =>
  let (result, reading) := read store.records Reading.start
  (result, { store with fetches := store.fetches + reading.fetches })

end RuleTree
