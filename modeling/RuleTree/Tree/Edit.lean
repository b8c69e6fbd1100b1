import RuleTree.Tree.Store

/-!
# Editing trees

Building, moving, copying and deleting trees in a store. Each operation that writes more than one
record is a transaction, so that a failure leaves the records exactly as they were.
-/

namespace RuleTree.Tree

open Store

/-! ## Building -/

/-- Adds a root for a node without content, or around a new object. -/
def addRoot (content : Option Content) : Action Node :=
  transaction do
    match content with
    | some content => saveNode none 0 (some (← saveObject content))
    | none => saveNode none 0 none

/-- Adds a root around a stored object, or without content. -/
def attachRoot (content : Option ContentRef) : Action Node := saveNode none 0 content

/-- Adds a child around a stored object after the last child of a parent. -/
def attachChild (parent : NodeId) (content : ContentRef) : Action Node := do
  let siblings ← loadChildren parent
  saveNode (some parent) siblings.length (some content)

/-- Adds a child around a new object after the last child of a parent. -/
def addChild (parent : NodeId) (content : Content) : Action Node :=
  transaction do
    let ref ← saveObject content
    attachChild parent ref

/-! ## Navigation -/

/-- The nodes with the given numbers. -/
def loadNodes : List NodeId → Action (List Node)
  | [] => pure []
  | id :: rest => do
    let node ← loadNode id
    let nodes ← loadNodes rest
    pure (node :: nodes)

/-- The children of a node in order. -/
def children (node : Node) : Action (List Node) := do loadNodes (← loadChildren node.id)

/-- The node and everything below it, every node after its parent. -/
def traverse (node : Node) : Action (List Node) := loadSubtree node.id

/-- Everything below the node. -/
def descendants (node : Node) : Action (List Node) := do
  let nodes ← loadSubtree node.id
  pure (nodes.drop 1)

/-- The object that the node wraps. -/
def contentOf (node : Node) : Action (Option Content) := do
  match node.content with
  | some ref => pure (some (← loadObject ref))
  | none => pure none

/-- Whether the node has no children. -/
def isLeaf (node : Node) : Action Bool := do
  let children ← loadChildren node.id
  pure children.isEmpty

/-! ## Moving -/

/-- Numbers siblings in the given order, starting at a position. -/
def renumberFrom (position : Nat) : List NodeId → Action Unit
  | [] => pure ()
  | id :: rest => do
    updatePosition id position
    renumberFrom (position + 1) rest

/-- Numbers siblings in the given order from zero on. -/
def renumber (ordered : List NodeId) : Action Unit := renumberFrom 0 ordered

/-- A list with an item moved to an index, or to the end if the index lies behind it. -/
def moved (item : NodeId) (index : Nat) (items : List NodeId) : List NodeId :=
  let others := items.erase item
  others.insertIdx (min index others.length) item

/-- Moves a child of a parent to an index among its siblings. -/
def moveChild (parent child : NodeId) (index : Nat) : Action Unit :=
  transaction do
    let siblings ← loadChildren parent
    if child ∈ siblings then renumber (moved child index siblings)
    else throw (.store (.notAChild child parent))

/-! ## Copying -/

/-- Which copies were made: of the objects that nodes wrap, and of definitions. -/
structure Copies where
  contents : Table NodeId ContentRef
  definitions : Table ObjectId ObjectId

/-- No copies. -/
def Copies.none : Copies := ⟨.empty, .empty⟩

/-- The same object for the copy: the use of a variable whose definition was copied too names the
copy of the definition. -/
def Copies.rebind (copies : Copies) : Content → Content
  | .use definition => .use ((copies.definitions.get? definition).getD definition)
  | content => content

/-- Copies the definitions that nodes wrap. -/
def copyDefinitions (copies : Copies) : List Node → Action Copies
  | [] => pure copies
  | node :: rest =>
    match node.content with
    | some ref => do
      if ref.kind = .definition then
        let content ← loadObject ref
        let copy ← saveObject content
        copyDefinitions
          { contents := copies.contents.insert node.id copy
            definitions := copies.definitions.insert ref.id copy.id } rest
      else copyDefinitions copies rest
    | none => copyDefinitions copies rest

/-- Copies all other objects that nodes wrap. -/
def copyContents (copies : Copies) : List Node → Action Copies
  | [] => pure copies
  | node :: rest =>
    match node.content with
    | some ref => do
      if copies.contents.contains node.id then copyContents copies rest
      else
        let content ← loadObject ref
        let copy ← saveObject (copies.rebind content)
        copyContents { copies with contents := copies.contents.insert node.id copy } rest
    | none => copyContents copies rest

/-- The parent that the copy of a node gets: the copy of its own parent. -/
def copiedParent (copied : Table NodeId NodeId) (node : Node) : Except StoreError NodeId :=
  match node.parent with
  | none => .error (.nodeNotFound node.id)
  | some parent =>
    match copied.get? parent with
    | some copy => .ok copy
    | none => .error (.nodeNotFound parent)

/-- Copies nodes, each after its parent; the copy of the root of the tree becomes a root. -/
def copyNodes (root : NodeId) (copies : Copies) (copied : Table NodeId NodeId) :
    List Node → Action (List Node)
  | [] => pure []
  | node :: rest => do
    let content := copies.contents.get? node.id
    let copy ←
      if node.id = root then saveNode none 0 content
      else do
        let parent ← give (copiedParent copied node)
        saveNode (some parent) node.position content
    let others ← copyNodes root copies (copied.insert node.id copy.id) rest
    pure (copy :: others)

/--
Copies the tree below a node into a tree of its own. Every object is copied; a variable whose
definition lies in the tree is bound to the copy of the definition, and any other keeps its
definition.
-/
def cloneTree (node : Node) : Action Node :=
  transaction do
    let nodes ← loadSubtree node.id
    let copies ← copyDefinitions .none nodes
    let copies ← copyContents copies nodes
    match ← copyNodes node.id copies .empty nodes with
    | copy :: _ => pure copy
    | [] => throw (.store (.nodeNotFound node.id))

/-! ## Deleting -/

/-- Each item once, where it comes first. -/
def distinct (refs : List ContentRef) : List ContentRef := refs.eraseDups

/-- The definitions that uses of variables name, apart from those that are referenced themselves. -/
def namedDefinitions (referenced : List ContentRef) : List ContentRef → Action (List ContentRef)
  | [] => pure []
  | ref :: rest => do
    if ref.kind = .use then
      let content ← loadObject ref
      let others ← namedDefinitions referenced rest
      match content with
      | .use definition =>
        let named : ContentRef := ⟨.definition, definition⟩
        pure (if named ∈ referenced then others else named :: others)
      | _ => pure others
    else namedDefinitions referenced rest

/-- Whether an object is a definition without a source. -/
def isLocalDefinition : Content → Bool
  | .definition _ none => true
  | _ => false

/-- The local definitions among some that no node wraps and that only referenced objects use. -/
def unusedOtherwise (referenced : List ContentRef) : List ContentRef → Action (List ContentRef)
  | [] => pure []
  | definition :: rest => do
    let content ← loadObject definition
    if isLocalDefinition content then
      if ← isAttached definition then unusedOtherwise referenced rest
      else
        let uses ← loadUsesOf definition.id
        let others ← unusedOtherwise referenced rest
        pure (if uses.all (· ∈ referenced) then definition :: others else others)
    else unusedOtherwise referenced rest

/-- The local definitions that nothing needs any more once the referenced objects are gone. -/
def freeDefinitions (referenced : List ContentRef) : Action (List ContentRef) := do
  let named ← namedDefinitions referenced referenced
  unusedOtherwise referenced
    ((distinct named).mergeSort fun a b => decide (a.id.val ≤ b.id.val))

/-- Deletes objects one after the other. -/
def deleteObjects : List ContentRef → Action Unit
  | [] => pure ()
  | ref :: rest => do
    deleteObject ref
    deleteObjects rest

/--
Deletes a node, everything below it and the objects that these nodes wrap, and with them the local
definitions outside of the tree that nothing else needs. The siblings that stay are numbered again.
-/
def deleteTree (node : Node) : Action Unit :=
  transaction do
    let nodes ← loadSubtree node.id
    let referenced := distinct (nodes.filterMap Node.content)
    let free ← freeDefinitions referenced
    deleteObjects (distinct (referenced ++ free))
    deleteSubtree node.id
    match node.parent with
    | some parent => renumber (← loadChildren parent)
    | none => pure ()

end RuleTree.Tree
