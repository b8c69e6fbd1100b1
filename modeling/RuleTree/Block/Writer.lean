import RuleTree.Block.Vocabulary
import RuleTree.Markup.Element
import RuleTree.Tree.Reading

/-!
# Writing block documents

A block of statements becomes a chain of blocks, each in the `next` of the one before; any other
tree becomes one block. A block holds its literal data in fields and its children in slots. The
definitions of variables are declarations and leave no trace in a document, apart from the names of
the variables that use them.
-/

namespace RuleTree.Block

/-- A field of a block. -/
def fieldElement (name value : String) : Element := ⟨"field", [("name", name)], value, []⟩

/-- An object lacks a child for a slot. -/
def missingSlot (node : Node) (content : Content) (slot : String) : Error :=
  .structural (.missingSlot content.kind node.id slot)

/-- The block of an operator, by its symbol. -/
def operatorBlock (block? : Option OperatorBlock) (symbol : String) :
    Except StructuralError OperatorBlock :=
  match block? with
  | some block => .ok block
  | none => .error (.unsupportedOperator symbol)

/-- The block type and the operator code of an object. -/
def ofContent : Content → Except StructuralError OperatorBlock
  | .integer _ | .float _ => .ok ⟨mathNumber, none⟩
  | .text _ => .ok ⟨text, none⟩
  | .boolean _ => .ok ⟨logicBoolean, none⟩
  | .date _ => .ok ⟨date, none⟩
  | .reference _ => .ok ⟨reference, none⟩
  | .use _ => .ok ⟨variablesGet, none⟩
  | .assignment => .ok ⟨variablesSet, none⟩
  | .binary symbol => operatorBlock ((BinaryOp.ofSymbol? symbol).map ofBinary) symbol
  | .unary symbol => operatorBlock ((UnaryOp.ofSymbol? symbol).map ofUnary) symbol
  | .call _ => .ok ⟨function, none⟩
  | .definition _ _ => .error (.unknownBlockType Kind.definition.tag)

/-- A chain of blocks from its first block and the blocks after it. -/
def chained (block : Element) (others : List Element) : Element :=
  if others.isEmpty then block
  else { block with children := block.children ++ [⟨"next", [], "", others⟩] }

section

variable (records : Records) (access : Access)

/-- The children that become blocks. -/
def visibleChildren (node : Node) : ReadM (List Node) := do
  let children ← Reading.children records access node
  pure (children.filter fun child => child.content.map ContentRef.kind ≠ some .definition)

/-- The name of the variable with a definition. -/
def variableName (definition : ObjectId) : ReadM String := do
  match ← Reading.object records access ⟨.definition, definition⟩ with
  | .definition name _ => pure name
  | other => throw (.structural (.unknownBlockType other.kind.tag))

/-- Children in their slots. -/
def slotElements (write : Node → ReadM Element) : List (Node × String) → ReadM (List Element)
  | [] => pure []
  | (child, slot) :: rest => do
    let content ← Reading.content records access child
    let wrapper := if content.map Content.slot = some .statement then "statement" else "value"
    let block ← write child
    let others ← slotElements write rest
    pure (⟨wrapper, [("name", slot)], "", [block]⟩ :: others)

/-- The slots of a block, which need one child each. -/
def fillSlots (write : Node → ReadM Element) (node : Node) (content : Content)
    (children : List Node) (slots : List String) : ReadM (List Element) :=
  match slots[children.length]? with
  | some slot => throw (missingSlot node content slot)
  | none =>
    if slots.length < children.length then
      throw (.structural (.surplusChildren children.length))
    else slotElements records access write (children.zip slots)

/-- The variable that an assignment binds. -/
def targetName (node target : Node) : ReadM String := do
  match ← Reading.content records access target with
  | some (.use definition) => variableName records access definition
  | _ => throw (missingSlot node .assignment "VAR")

/-- The fields and slots of the block of an object. -/
def partElements (write : Node → ReadM Element) (node : Node) (block : OperatorBlock)
    (children : List Node) (content : Content) : ReadM (List Element) :=
  match content with
  | .integer n => pure [fieldElement "NUM" (String.ofList (Digits.writeInt n.toInt))]
  | .float x =>
    if Binary64.isFinite x then pure [fieldElement "NUM" (floatText x)]
    else throw (.structural (.invalidField block.blockType "NUM" (floatText x)))
  | .text s => pure [fieldElement "TEXT" s]
  | .boolean b => pure [fieldElement "BOOL" (if b then "TRUE" else "FALSE")]
  | .date d => pure [fieldElement "DATE" d.text]
  | .reference r =>
    pure [fieldElement "TYPE" r.model,
      fieldElement "VALUE" (String.ofList (Digits.writeInt r.id.toInt))]
  | .use definition => do
    pure [fieldElement "VAR" (← variableName records access definition)]
  | .assignment =>
    match children with
    | [] => throw (missingSlot node .assignment "VAR")
    | target :: others => do
      let name ← targetName records access node target
      let slots ← fillSlots records access write node content others ["VALUE"]
      pure (fieldElement "VAR" name :: slots)
  | .binary _ | .unary _ => do
    let slots ← fillSlots records access write node content children (operandSlots block.blockType)
    pure ((block.code.map (fieldElement "OP")).toList ++ slots)
  | .call title => do
    let names := (List.range children.length).map argumentSlot
    let slots ← fillSlots records access write node content children names
    pure (fieldElement "FUNC" title :: slots)
  | .definition _ _ => throw (.structural (.unknownBlockType Kind.definition.tag))

/-- The block of a node, going down at most `depth` levels. -/
def blockElement (ids : Bool) : Nat → Node → ReadM Element
  | 0, node => throw (.store (.endlessDescent node.id))
  | depth + 1, node => do
    match ← Reading.content records access node with
    | none => throw (.structural (.emptyStatement node.id))
    | some content => do
      let children ← visibleChildren records access node
      match ofContent content with
      | .error cause => throw (.structural cause)
      | .ok block => do
        let parts ← partElements records access (blockElement ids depth) node block children content
        let id := if ids then [("id", node.id.text)] else []
        pure ⟨"block", ("type", block.blockType) :: id, "", parts⟩

/-- The chain of the blocks of several nodes: one block or, without nodes, none. -/
def chainElement (write : Node → ReadM Element) : List Node → ReadM (List Element)
  | [] => pure []
  | node :: rest => do
    let block ← write node
    let others ← chainElement write rest
    pure [chained block others]

/-- The document of a tree, with or without the numbers of the nodes. -/
def document (ids : Bool) (node : Node) : ReadM Element := do
  let write := blockElement records access ids records.depthBound
  let blocks ←
    if node.isBlock then do
      let statements ← visibleChildren records access node
      chainElement write statements
    else do
      let block ← write node
      pure [block]
  pure ⟨"xml", [], "", blocks⟩

/-- The text of the document of a tree. -/
def build (ids : Bool) (node : Node) : ReadM String := do
  let root ← document records access ids node
  pure (String.ofList root.write)

end

end RuleTree.Block
