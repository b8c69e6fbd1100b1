import RuleTree.Tree.Records

/-!
# Snapshots

A snapshot holds parts of a store in memory: whole subtrees, read with one fetch each, and the
objects that they reference, read with one fetch for each kind. A `Reading` is a snapshot that is
being filled, together with the number of fetches that this took. The records do not change while
they are read.
-/

namespace RuleTree

/-- Subtrees of a store and the objects that belong to them. -/
structure Snapshot where
  nodes : Table NodeId Node
  /-- The children, in order, of every node of a subtree that was loaded. -/
  children : Table NodeId (List NodeId)
  objects : Table ContentRef Content
  /-- The node that wraps an object. -/
  owners : Table ContentRef NodeId

namespace Snapshot

/-- Nothing loaded. -/
def empty : Snapshot := ⟨.empty, .empty, .empty, .empty⟩

/-- Whether the children of a node are known. -/
def covers (snapshot : Snapshot) (id : NodeId) : Bool := snapshot.children.contains id

/-- The position of a node, if it was loaded. -/
def position? (snapshot : Snapshot) (id : NodeId) : Option Nat :=
  (snapshot.nodes.get? id).map Node.position

/-- Makes room for the children of a node. -/
def cover (snapshot : Snapshot) (node : Node) : Snapshot :=
  if snapshot.covers node.id then snapshot
  else { snapshot with children := snapshot.children.insert node.id [] }

/-- Enters a node below a root as a child of its parent, unless it was entered before. -/
def enterChild (root : NodeId) (snapshot : Snapshot) (node : Node) : Snapshot :=
  if node.id = root then snapshot
  else
    match node.parent with
    | none => snapshot
    | some parent =>
      match snapshot.children.get? parent with
      | none => snapshot
      | some siblings =>
        if node.id ∈ siblings then snapshot
        else { snapshot with children := snapshot.children.insert parent (siblings ++ [node.id]) }

/-- Enters a node under its number, where it stays as it was entered first, and under its object. -/
def enterNode (snapshot : Snapshot) (node : Node) : Snapshot :=
  { snapshot with
    nodes :=
      if snapshot.nodes.contains node.id then snapshot.nodes
      else snapshot.nodes.insert node.id node
    owners :=
      match node.content with
      | some ref => snapshot.owners.insert ref node.id
      | none => snapshot.owners }

/-- Puts the children of a node into the order of their positions. -/
def arrange (snapshot : Snapshot) (node : Node) : Snapshot :=
  match snapshot.children.get? node.id with
  | none => snapshot
  | some siblings =>
    { snapshot with
      children := snapshot.children.insert node.id
        (Records.inOrder snapshot.position? siblings) }

/-- Enters the nodes of the subtree below a root. -/
def enter (snapshot : Snapshot) (root : NodeId) (nodes : List Node) : Snapshot :=
  let covered := nodes.foldl cover snapshot
  let entered := nodes.foldl (fun s node => (s.enterChild root node).enterNode node) covered
  nodes.foldl arrange entered

/-- The objects that were not loaded yet, grouped by their kinds, each once. -/
def missing (snapshot : Snapshot) (refs : List ContentRef) : List (Kind × List ObjectId) :=
  let wanted := refs.filter fun ref => !snapshot.objects.contains ref
  (Kind.all.map fun kind =>
    (kind, ((wanted.filter fun ref => ref.kind = kind).map ContentRef.id).eraseDups)).filter
      fun group => !group.2.isEmpty

/-- The definitions that the loaded uses of variables name. -/
def namedDefinitions (snapshot : Snapshot) : List ContentRef :=
  snapshot.objects.values.filterMap fun content =>
    match content with
    | .use definition => some ⟨.definition, definition⟩
    | _ => none

/-- Enters objects of one kind. -/
def enterObjects (snapshot : Snapshot) (kind : Kind) (objects : List (ObjectId × Content)) :
    Snapshot :=
  { snapshot with
    objects := objects.foldl (fun table entry => table.insert ⟨kind, entry.1⟩ entry.2)
      snapshot.objects }

end Snapshot

/-- A snapshot that is being filled. -/
structure Reading where
  snapshot : Snapshot
  /-- Whether the snapshot was ever asked. -/
  opened : Bool
  fetches : Nat

/-- A step that reads from a store. -/
abbrev ReadM := ExceptT Error (StateM Reading)

namespace Reading

/-- Nothing was read yet. -/
def start : Reading := ⟨.empty, false, 0⟩

instance : Inhabited Reading := ⟨start⟩

/-- One fetch. -/
def fetch {α : Type} (answer : Except StoreError α) : ReadM α := fun reading =>
  (answer.mapError .store, { reading with fetches := reading.fetches + 1 })

/-- An answer from memory. -/
def give {α : Type} (answer : Except StoreError α) : ReadM α := fun reading =>
  (answer.mapError .store, reading)

/-- The snapshot as it is now. -/
def snapshotNow : ReadM Snapshot := fun reading => (.ok reading.snapshot, reading)

/-- Changes the snapshot. -/
def modifySnapshot (change : Snapshot → Snapshot) : ReadM Unit := fun reading =>
  (.ok (), { reading with snapshot := change reading.snapshot })

/-- Notes that the snapshot was asked. -/
def markOpened : ReadM Unit := fun reading => (.ok (), { reading with opened := true })

variable (records : Records)

/-- Loads groups of objects, one fetch for each group. -/
def loadGroups : List (Kind × List ObjectId) → ReadM Unit
  | [] => pure ()
  | (kind, ids) :: rest => do
    let objects ← fetch (records.objectsOf kind ids)
    modifySnapshot (·.enterObjects kind objects)
    loadGroups rest

/-- Loads the objects among some that were not loaded yet. -/
def loadObjects (refs : List ContentRef) : ReadM Unit := do
  let snapshot ← snapshotNow
  loadGroups records (snapshot.missing refs)

/-- Loads the subtree below a root, the objects of its nodes, and the definitions that the loaded
variables name, wherever those are. -/
def load (root : NodeId) : ReadM Unit := do
  let nodes ← fetch (records.subtree root)
  modifySnapshot (·.enter root nodes)
  loadObjects records (nodes.filterMap Node.content)
  let snapshot ← snapshotNow
  loadObjects records snapshot.namedDefinitions

end Reading

end RuleTree
