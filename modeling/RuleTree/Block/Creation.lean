import RuleTree.Block.Reader
import RuleTree.Function.Library
import RuleTree.Json.Printer
import RuleTree.Program.Version
import RuleTree.Tree.Store

/-!
# Storing sketches

A sketch is stored in three steps. The names of its variables are bound to definitions, those of an
interface where it has them and new ones elsewhere. The objects of its nodes are stored, those of
the children before that of the parent. Then the nodes are stored from the root down. Either
everything is stored or nothing is.
-/

namespace RuleTree.Creation

/-! ## Objects -/

/-- An entry of data that has to be there and of the right type. -/
def require {α : Type} (data : Fields) (kind : Kind) (key : String) (read : Json → Option α) :
    Except CreationError α :=
  match Entries.get? key data with
  | none => .error (.missingData key)
  | some json =>
    match read json with
    | some value => .ok value
    | none => .error (.invalidData kind key json.compact)

/-- The kind of content that data name. -/
def kindOf (data : Fields) : Except CreationError Kind :=
  match (Entries.get? "content_type" data).bind Json.asStr? with
  | none => .error (.missingData "content_type")
  | some tag =>
    match Kind.ofTag? tag with
    | some kind => .ok kind
    | none => .error (.unknownKind tag)

/-- The operator that data name, if it passes a test. -/
def operatorOf (data : Fields) (kind : Kind) (isOperator : String → Bool) :
    Except CreationError String := do
  let symbol ← require data kind "operator" Json.asStr?
  if isOperator symbol then .ok symbol else .error (.invalidData kind "operator" symbol)

/-- The object that data describe. Calls are checked against a library if there is one. -/
def contentOf (functions : Option Library) (kind : Kind) (data : Fields) :
    Except CreationError Content :=
  match kind with
  | .integer => do .ok (.integer (← require data kind "value" Json.asInt64?))
  | .float => do .ok (.float (← require data kind "value" Json.asFloat?))
  | .text => do .ok (.text (← require data kind "value" Json.asStr?))
  | .boolean => do .ok (.boolean (← require data kind "value" Json.asBool?))
  | .date => do
    let raw ← require data kind "value" Json.asStr?
    match Date.read? raw.toList with
    | some date => .ok (.date date)
    | none => .error (.invalidData kind "value" raw)
  | .reference => do
    let model ← require data kind "model" Json.asStr?
    let id ← require data kind "value" Json.asInt64?
    .ok (.reference ⟨model, id⟩)
  | .use =>
    match (Entries.get? "definition_id" data).bind Json.asInt? with
    | some id => .ok (.use ⟨id⟩)
    | none =>
      .error (.unresolvedVariable (((Entries.get? "name" data).bind Json.asStr?).getD ""))
  | .definition => do .ok (.definition (← require data kind "name" Json.asStr?) none)
  | .assignment => .ok .assignment
  | .binary => do
    .ok (.binary (← operatorOf data kind fun symbol => (BinaryOp.ofSymbol? symbol).isSome))
  | .unary => do
    .ok (.unary (← operatorOf data kind fun symbol => (UnaryOp.ofSymbol? symbol).isSome))
  | .call => do
    let title ← require data kind "definition" Json.asStr?
    match functions with
    | some library => if library.contains title then .ok () else .error (.unknownFunction title)
    | none => .ok ()
    .ok (.call title)

/-- The entries of data that are the parts of a value; they go when the value is stored. -/
def literalKeys : List String :=
  ["value", "model", "name", "operator", "definition", "definition_id"]

/-- The data of a stored object: its address takes the place of its value. -/
def storedData (ref : ContentRef) (data : Fields) : Fields :=
  let rest := literalKeys.foldl (fun data key => Entries.erase key data) data
  Entries.insert "content_type" (.str ref.kind.tag)
    (Entries.insert "object_id" (.int ref.id.val) rest)

/-- A result of creation as a step that changes nothing. -/
def give {α : Type} (result : Except CreationError α) : Action α := fun store =>
  (result.mapError .creation, store)

/--
Stores the object that data describe and gives its address and the data that are left. Data with an
address refer to a stored object, and nothing is stored for them.
-/
def createContent (functions : Option Library) (data : Fields) : Action (ContentRef × Fields) := do
  let kind ← give (kindOf data)
  let ref ←
    match (Entries.get? "object_id" data).bind Json.asInt? with
    | some id => pure (⟨kind, ⟨id⟩⟩ : ContentRef)
    | none => do
      let content ← give (contentOf functions kind data)
      Store.saveObject content
  pure (ref, storedData ref data)

/-! ## Variables -/

/-- The definitions of variables, by name. -/
abbrev Names := Table String ObjectId

/-- The names of external definitions. -/
def externalNames (names : Names) : List ContentRef → Action Names
  | [] => pure names
  | ref :: rest => do
    let name ← externalName ref
    externalNames (names.insert name ref.id) rest

/-- The name of a node that uses a variable by name. -/
def usedName? (node : Sketch) : Option String :=
  if node.kind? = some .use then node.getStr? "name" else none

/-- The names that a tree uses and that have no definition, in the order of their first use. -/
def newNames (names : Names) (tree : Sketch) : List String :=
  ((tree.walk.filterMap usedName?).filter fun name => !names.contains name).eraseDups

/-- The node of a new definition. -/
def definitionSketch (ref : ContentRef) (name : String) : Sketch :=
  ⟨Entries.insert "name" (.str name)
    (Entries.insert "object_id" (.int ref.id.val) (Sketch.dataOf ref.kind [])), []⟩

/-- Stores a definition for each of some names. -/
def defineNames (names : Names) : List String → Action (Names × List Sketch)
  | [] => pure (names, [])
  | name :: rest => do
    let ref ← Store.saveObject (.definition name none)
    let (names, others) ← defineNames (names.insert name ref.id) rest
    pure (names, definitionSketch ref name :: others)

/-- Puts the definition in the place of the name in the data of a variable. -/
def bindData (names : Names) (data : Fields) : Fields :=
  match (usedName? ⟨data, []⟩).bind names.get? with
  | some definition =>
    Entries.insert "definition_id" (.int definition.val) (Entries.erase "name" data)
  | none => data

/--
Binds the names of the variables in a tree to definitions: to an external one with the name where
there is one, and to a new one elsewhere. Gives the new definitions and the tree with its variables
bound.
-/
def bindVariables (tree : Sketch) (external : List ContentRef) : Action (List Sketch × Sketch) := do
  let names ← externalNames .empty external
  let (names, definitions) ← defineNames names (newNames names tree)
  pure (definitions, tree.mapData (bindData names))

/-! ## Checks -/

/-- How many children a node of a kind has to have, if that is known. -/
def expectedChildren (functions : Option Library) (kind : Kind) (tree : Sketch) : Option Nat :=
  match kind.arity with
  | .fixed count => some count
  | .declared => do
    let title ← tree.getStr? "definition"
    let function ← (← functions).get? title
    some function.parameters.length

/-- A node has as many children as it has to. -/
def checkCount (functions : Option Library) (kind : Kind) (tree : Sketch) :
    Except CreationError Unit :=
  match expectedChildren functions kind tree with
  | some expected =>
    if expected = tree.children.length then .ok ()
    else .error (.arity kind expected tree.children.length)
  | none => .ok ()

/-- An assignment has a variable as its first child. -/
def checkTarget (kind : Kind) (tree : Sketch) : Except CreationError Unit :=
  if kind = .assignment then
    match tree.children.head?.bind Sketch.kind? with
    | some .use => .ok ()
    | target => .error (.invalidData kind "target" ((target.map Kind.tag).getD ""))
  else .ok ()

/-- A node has a kind of content and the children that go with it; only a root may be a block. -/
def checkNode (functions : Option Library) (isRoot : Bool) (tree : Sketch) :
    Except CreationError Unit :=
  match tree.kind? with
  | none =>
    if tree.isBlock && isRoot then .ok ()
    else
      match (tree.getStr? "content_type").getD "" with
      | "" => .error (.missingData "content_type")
      | tag => .error (.unknownKind tag)
  | some kind => do
    checkCount functions kind tree
    checkTarget kind tree

mutual

/-- Checks a tree, parents before children. -/
def check (functions : Option Library) (isRoot : Bool) : Sketch → Except CreationError Unit
  | ⟨data, children⟩ => do
    checkNode functions isRoot ⟨data, children⟩
    checkAll functions children

/-- Checks trees below a root one after the other. -/
def checkAll (functions : Option Library) : List Sketch → Except CreationError Unit
  | [] => .ok ()
  | tree :: rest => do
    check functions false tree
    checkAll functions rest

end

/-! ## Trees -/

mutual

/-- Stores the objects of a tree, children before parents. -/
def createContents (functions : Option Library) : Sketch → Action Sketch
  | ⟨data, children⟩ => do
    let children ← createAllContents functions children
    if Sketch.isBlock ⟨data, children⟩ then pure ⟨data, children⟩
    else do
      let (_, data) ← createContent functions data
      pure ⟨data, children⟩

/-- Stores the objects of several trees, one tree after the other. -/
def createAllContents (functions : Option Library) : List Sketch → Action (List Sketch)
  | [] => pure []
  | tree :: rest => do
    let tree ← createContents functions tree
    let others ← createAllContents functions rest
    pure (tree :: others)

end

/-- The address of the stored object of a node. -/
def storedRef (data : Fields) : Except CreationError ContentRef := do
  let kind ← kindOf data
  match (Entries.get? "object_id" data).bind Json.asInt? with
  | some id => .ok ⟨kind, ⟨id⟩⟩
  | none => .error (.missingData "object_id")

mutual

/-- Stores the nodes of a tree below a parent, each before its children. -/
def createNodes (parent : NodeId) (position : Nat) : Sketch → Action Unit
  | ⟨data, children⟩ => do
    let ref ← give (storedRef data)
    let node ← Store.saveNode (some parent) position (some ref)
    createNodesFrom node.id 0 children

/-- Stores the nodes of several trees as siblings, from a position on. -/
def createNodesFrom (parent : NodeId) (position : Nat) : List Sketch → Action Unit
  | [] => pure ()
  | tree :: rest => do
    createNodes parent position tree
    createNodesFrom parent (position + 1) rest

end

/-- Stores the nodes of new definitions as the first children of a block. -/
def createDefinitions (functions : Option Library) (parent : NodeId) (position : Nat) :
    List Sketch → Action Unit
  | [] => pure ()
  | definition :: rest => do
    let (ref, _) ← createContent functions definition.data
    let _ ← Store.saveNode (some parent) position (some ref)
    createDefinitions functions parent (position + 1) rest

/-- Stores the nodes of a tree with its definitions. A tree that is no block keeps no nodes for
definitions, so that those stay free. -/
def createTree (functions : Option Library) (definitions : List Sketch) (tree : Sketch) :
    Action Node := do
  if tree.isBlock then
    let root ← Store.saveNode none 0 none
    createDefinitions functions root.id 0 definitions
    createNodesFrom root.id definitions.length tree.children
    pure root
  else
    let ref ← give (storedRef tree.data)
    let root ← Store.saveNode none 0 (some ref)
    createNodesFrom root.id 0 tree.children
    pure root

/-- The definitions that a tree may use: those of the interface of a version, if one is given. -/
def externalDefinitions : Option Version → Except CreationError (List ContentRef)
  | none => .ok []
  | some version =>
    if version.isBound then .ok version.definitions else .error (.unboundVersion version.id)

/-- Stores a tree; with a version, the variables of its interface are at hand. -/
def create (functions : Option Library) (tree : Sketch) (version : Option Version) :
    Action Node := do
  let external ← give (externalDefinitions version)
  Store.transaction do
    let (definitions, tree) ← bindVariables tree external
    give (check functions true tree)
    let tree ← createContents functions tree
    createTree functions definitions tree

/-- Reads a document and stores its statements below a new block. -/
def importDocument (functions : Option Library) (document : String) (version : Option Version) :
    Action Node := do
  let statements ← fun store => ((Block.read document).mapError .structural, store)
  create functions (.block statements) version

end RuleTree.Creation
