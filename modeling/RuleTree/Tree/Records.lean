import RuleTree.Content.Basic
import RuleTree.Error
import RuleTree.Table
import RuleTree.Tree.Node

/-!
# The records of a store

`Records` is what a store holds: nodes by number, the list of children of each parent, content
objects by address, and for either kind of number the last one given out. The list of children keeps
the order in which the children came; their order in the tree is the order of their positions and is
found when the children are read (`orderedChildren`).

Everything here is a function of the records. Counting reads, refusing deletions and undoing writes
belong to the store.
-/

namespace RuleTree

/-- Everything that a store holds. -/
structure Records where
  /-- The last number given to a node. -/
  lastNode : Int
  /-- The last number given to a content object of any kind. -/
  lastObject : Int
  nodes : Table NodeId Node
  /-- The children of each parent that ever had one, in the order in which they came. -/
  children : Table NodeId (List NodeId)
  objects : Table ContentRef Content

namespace Records

/-- The records of a store in which nothing was ever stored. -/
def empty : Records := ⟨0, 0, .empty, .empty, .empty⟩

instance : Inhabited Records := ⟨empty⟩

/-! ## Reading -/

/-- The node with a number. -/
def node (records : Records) (id : NodeId) : Except StoreError Node :=
  match records.nodes.get? id with
  | some node => .ok node
  | none => .error (.nodeNotFound id)

/-- The children that were entered for a parent, in the order in which they came. -/
def childList (records : Records) (parent : NodeId) : List NodeId :=
  (records.children.get? parent).getD []

/-- The position of a node, if it is stored. -/
def position? (records : Records) (id : NodeId) : Option Nat :=
  (records.nodes.get? id).map Node.position

/-- Whether a position comes no later than another; a node that is not stored comes first. -/
def positionLe : Option Nat → Option Nat → Bool
  | none, _ => true
  | some _, none => false
  | some m, some n => decide (m ≤ n)

/-- Numbers of nodes in the order of their positions; equal positions keep their order. -/
def inOrder (position? : NodeId → Option Nat) (ids : List NodeId) : List NodeId :=
  ids.mergeSort fun a b => positionLe (position? a) (position? b)

/-- The children of a parent in the order of their positions. -/
def orderedChildren (records : Records) (parent : NodeId) : List NodeId :=
  inOrder records.position? (records.childList parent)

/-- The children of a stored parent in the order of their positions. -/
def childrenOf (records : Records) (parent : NodeId) : Except StoreError (List NodeId) :=
  if records.nodes.contains parent then .ok (records.orderedChildren parent)
  else .error (.nodeNotFound parent)

/--
A walk down the tree never meets more parents than there are lists of children, unless some node
lies below itself.
-/
def depthBound (records : Records) : Nat := records.children.size + 1

/--
The nodes below a node: its children from the last to the first, then what lies below the first
child, below the second, and so on. There is no answer if the walk goes deeper than allowed.
-/
def below (records : Records) : Nat → NodeId → Option (List Node)
  | 0, _ => none
  | depth + 1, id => do
    let children := records.orderedChildren id
    let deeper ← children.mapM (records.below depth)
    some (children.reverse.filterMap records.nodes.get? ++ deeper.flatten)

/--
A node and all nodes below it, every node after its parent. Where a node lies below itself the walk
does not end, and there is no list; the error stands for this.
-/
def subtree (records : Records) (root : NodeId) : Except StoreError (List Node) :=
  match records.nodes.get? root with
  | none => .error (.nodeNotFound root)
  | some node =>
    match records.below records.depthBound root with
    | some rest => .ok (node :: rest)
    | none => .error (.endlessDescent root)

/-- The object with an address. -/
def object (records : Records) (ref : ContentRef) : Except StoreError Content :=
  match records.objects.get? ref with
  | some content => .ok content
  | none => .error (.objectNotFound ref)

/-- Several objects of one kind, or the first of them that is missing. -/
def objectsOf (records : Records) (kind : Kind) :
    List ObjectId → Except StoreError (List (ObjectId × Content))
  | [] => .ok []
  | id :: rest => do
    let content ← records.object ⟨kind, id⟩
    let others ← records.objectsOf kind rest
    .ok ((id, content) :: others)

/-- The addresses of the objects that use a variable with the given definition. -/
def usesOf (records : Records) (definition : ObjectId) : List ContentRef :=
  (records.objects.entries.filter fun entry => entry.2 = .use definition).map (·.1)

/-- Whether some node wraps the object with an address. -/
def isAttached (records : Records) (ref : ContentRef) : Bool :=
  records.nodes.values.any fun node => node.content = some ref

/-- How many objects of a kind are stored. -/
def countOf (records : Records) (kind : Kind) : Nat :=
  (records.objects.keys.filter fun ref => ref.kind = kind).length

/-! ## Writing -/

/-- Enters a node under its own number, at the end of the list of its parent's children. -/
def insertNode (records : Records) (node : Node) : Records :=
  { records with
    lastNode := max records.lastNode node.id.val
    nodes := records.nodes.insert node.id node
    children :=
      match node.parent with
      | some parent => records.children.insert parent (records.childList parent ++ [node.id])
      | none => records.children }

/-- Enters an object under its own address. -/
def insertObject (records : Records) (ref : ContentRef) (content : Content) : Records :=
  { records with
    lastObject := max records.lastObject ref.id.val
    objects := records.objects.insert ref content }

/-- Gives a new node the next number, if its parent and its content object are stored. -/
def saveNode (records : Records) (parent : Option NodeId) (position : Nat)
    (content : Option ContentRef) : Except StoreError (Node × Records) :=
  match parent.filter fun p => !records.nodes.contains p with
  | some p => .error (.nodeNotFound p)
  | none =>
    match content.filter fun ref => !records.objects.contains ref with
    | some ref => .error (.objectNotFound ref)
    | none =>
      let node : Node := ⟨⟨records.lastNode + 1⟩, parent, position, content⟩
      .ok (node, records.insertNode node)

/-- Changes the position of a stored node. -/
def setPosition (records : Records) (id : NodeId) (position : Nat) : Except StoreError Records :=
  match records.nodes.get? id with
  | some node => .ok { records with nodes := records.nodes.insert id { node with position } }
  | none => .error (.nodeNotFound id)

/-- Gives a new object the next number. -/
def saveObject (records : Records) (content : Content) : ContentRef × Records :=
  let ref : ContentRef := ⟨content.kind, ⟨records.lastObject + 1⟩⟩
  (ref, records.insertObject ref content)

/-- Removes a stored object. -/
def removeObject (records : Records) (ref : ContentRef) : Except StoreError Records :=
  if records.objects.contains ref then .ok { records with objects := records.objects.erase ref }
  else .error (.objectNotFound ref)

/-- How many entries the lists of children have in all. -/
def listed (children : List (NodeId × List NodeId)) : Nat :=
  (children.flatMap fun entry => entry.2).length

theorem listed_erase (id : NodeId) (children : List (NodeId × List NodeId)) :
    ((Entries.get? id children).getD []).length + listed (Entries.erase id children)
      ≤ listed children := by
  induction children with
  | nil => simp [listed, Entries.erase]
  | cons entry rest ih =>
    obtain ⟨k, list⟩ := entry
    by_cases here : k = id
    · subst here
      have dropped : Entries.erase k ((k, list) :: rest) = Entries.erase k rest := by
        simp [Entries.erase]
      have smaller : listed (Entries.erase k rest) ≤ listed rest := by omega
      simp only [Entries.get?, if_pos, Option.getD_some, dropped]
      simp only [listed, List.flatMap_cons, List.length_append] at smaller ⊢
      omega
    · have kept : Entries.erase id ((k, list) :: rest) = (k, list) :: Entries.erase id rest := by
        simp [Entries.erase, here]
      simp only [Entries.get?, if_neg here, kept]
      simp only [listed, List.flatMap_cons, List.length_append] at ih ⊢
      omega

/--
Removes the nodes in a list and everything below them. A node takes its list of children along when
it goes, so that even a node that lies below itself is met only once.
-/
def removeBelow (records : Records) : List NodeId → Records
  | [] => records
  | id :: rest =>
    let remaining : Records :=
      { records with
        nodes := records.nodes.erase id
        children := records.children.erase id }
    remaining.removeBelow (records.childList id ++ rest)
termination_by ids => ids.length + listed records.children.entries
decreasing_by
  have := listed_erase id records.children.entries
  simp only [childList, Table.get?, Table.erase, List.length_append, List.length_cons]
  omega

/-- Removes a stored node and everything below it, and takes the node off its parent's list. -/
def removeSubtree (records : Records) (root : NodeId) : Except StoreError Records :=
  match records.nodes.get? root with
  | none => .error (.nodeNotFound root)
  | some node =>
    let children :=
      match node.parent with
      | some parent =>
        match records.children.get? parent with
        | some siblings => records.children.insert parent (siblings.filter (· ≠ root))
        | none => records.children
      | none => records.children
    .ok ({ records with children }.removeBelow [root])

end Records

end RuleTree
