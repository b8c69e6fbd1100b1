import RuleTree.Block.Sketch
import RuleTree.Block.Vocabulary
import RuleTree.Date
import RuleTree.Markup.Element
import RuleTree.Number.FloatText

/-!
# Reading block documents

A document is an `xml` element with blocks in it. A block becomes a node whose data come from its
fields and whose children come from its slots; the blocks that hang below one another through `next`
are siblings. What the fields hold is checked, but not whether a block has the children it needs or
whether its names mean anything.
-/

namespace RuleTree.Block

/-- The text of the first field of a block with a name. -/
def field? (children : List Element) (name : String) : Option String :=
  (children.find? fun child => child.name = "field" && child.attribute? "name" = some name).map
    Element.text

/-- The text of a field that has to be there. -/
def field (children : List Element) (blockType name : String) : Except StructuralError String :=
  match field? children name with
  | some text => .ok text
  | none => .error (.missingField blockType name)

/-- The text of a field that has to be there, without blanks around it. -/
def trimmedField (children : List Element) (blockType name : String) :
    Except StructuralError (List Char) := do
  .ok (Text.trim (← field children blockType name).toList)

/-- What was read from a field, or an error that shows the text of the field. -/
def valid {α : Type} (blockType name : String) (raw : List Char) (read : Option α) :
    Except StructuralError α :=
  match read with
  | some value => .ok value
  | none => .error (.invalidField blockType name (String.ofList raw))

/-- A 64-bit integer. -/
def readInt64? (raw : List Char) : Option Int64 := (Digits.readInt? raw).bind Word.ofInt?

/-- The data of a number: a float if there is a point or an exponent, and else an integer. -/
def numberData (blockType : String) (raw : List Char) : Except StructuralError Fields :=
  if raw.any fun c => c = '.' || c = 'e' || c = 'E' then do
    let x ← valid blockType "NUM" raw (FloatReader.read? raw)
    .ok (Sketch.dataOf .float [("value", Json.ofFloat x)])
  else do
    let n ← valid blockType "NUM" raw (readInt64? raw)
    .ok (Sketch.dataOf .integer [("value", .int n.toInt)])

/-- The data of an operator block. -/
def operatorData (blockType : String) (code : Option String) : Except StructuralError Fields :=
  match toBinary? ⟨blockType, code⟩ with
  | some op => .ok (Sketch.dataOf .binary [("operator", .str op.symbol)])
  | none =>
    match toUnary? ⟨blockType, code⟩ with
    | some op => .ok (Sketch.dataOf .unary [("operator", .str op.symbol)])
    | none => .error (.unsupportedOperator (blockType ++ " " ++ code.getD ""))

/-- The data of a block, by its type and the elements in it. -/
def data (blockType : String) (children : List Element) : Except StructuralError Fields := do
  if blockType = mathNumber then
    numberData blockType (← trimmedField children blockType "NUM")
  else if blockType = text then
    .ok (Sketch.dataOf .text [("value", .str (← field children blockType "TEXT"))])
  else if blockType = logicBoolean then
    match ← field children blockType "BOOL" with
    | "TRUE" => .ok (Sketch.dataOf .boolean [("value", .bool true)])
    | "FALSE" => .ok (Sketch.dataOf .boolean [("value", .bool false)])
    | other => .error (.invalidField blockType "BOOL" other)
  else if blockType = date then
    let raw ← trimmedField children blockType "DATE"
    let _ ← valid blockType "DATE" raw (Date.read? raw)
    .ok (Sketch.dataOf .date [("value", .str (String.ofList raw))])
  else if blockType = reference then
    let model ← field children blockType "TYPE"
    let raw ← trimmedField children blockType "VALUE"
    let id ← valid blockType "VALUE" raw (readInt64? raw)
    .ok (Sketch.dataOf .reference [("model", .str model), ("value", .int id.toInt)])
  else if blockType = variablesGet then
    .ok (Sketch.dataOf .use [("name", .str (← field children blockType "VAR"))])
  else if blockType = variablesSet then .ok (Sketch.dataOf .assignment [])
  else if blockType = function then
    .ok (Sketch.dataOf .call [("definition", .str (← field children blockType "FUNC"))])
  else if isBinaryType blockType || isUnaryType blockType then
    operatorData blockType (field? children "OP")
  else .error (.unknownBlockType blockType)

/--
The node of a block, given what its slots hold. The variable that an assignment binds stands in a
field and becomes the first child.
-/
def node (block : Element) (slots : Except StructuralError (List Sketch)) :
    Except StructuralError Sketch :=
  match block.attribute? "type" with
  | none => .error (.missingAttribute block.name "type")
  | some blockType => do
    let children ← slots
    let data ← data blockType block.children
    let data :=
      match block.attribute? "id" with
      | some id => Entries.insert "id" (.str id) data
      | none => data
    if blockType = variablesSet then
      let name ← field block.children blockType "VAR"
      .ok ⟨data, ⟨Sketch.dataOf .use [("name", .str name)], []⟩ :: children⟩
    else .ok ⟨data, children⟩

mutual

/-- The node of one block. -/
def single : Element → Except StructuralError Sketch
  | ⟨name, attributes, text, children⟩ =>
    node ⟨name, attributes, text, children⟩ (inSlots children)

/-- The nodes of a block and of the blocks after it. -/
def chain : Element → Except StructuralError (List Sketch)
  | ⟨name, attributes, text, children⟩ => do
    let first ← node ⟨name, attributes, text, children⟩ (inSlots children)
    let others ← next children
    .ok (first :: others)

/-- What the slots among some elements hold, in order. A slot for a value holds one block, a slot
for statements a chain of them; an empty slot holds nothing. -/
def inSlots : List Element → Except StructuralError (List Sketch)
  | [] => .ok []
  | ⟨name, _, _, children⟩ :: rest => do
    let here ←
      if name = "value" then
        ((firstSingle "block" children).or (firstSingle "shadow" children)).getD (.ok [])
      else if name = "statement" then
        ((firstChain "block" children).or (firstChain "shadow" children)).getD (.ok [])
      else .ok []
    let others ← inSlots rest
    .ok (here ++ others)

/-- What hangs below the first `next` among some elements. -/
def next : List Element → Except StructuralError (List Sketch)
  | [] => .ok []
  | ⟨name, _, _, children⟩ :: rest =>
    if name = "next" then (firstChain "block" children).getD (.ok []) else next rest

/-- The node of the first element with a name. -/
def firstSingle (name : String) : List Element → Option (Except StructuralError (List Sketch))
  | [] => none
  | element :: rest =>
    if element.name = name then some ((single element).map ([·])) else firstSingle name rest

/-- The nodes of the chain that the first element with a name begins. -/
def firstChain (name : String) : List Element → Option (Except StructuralError (List Sketch))
  | [] => none
  | element :: rest => if element.name = name then some (chain element) else firstChain name rest

end

/-- The nodes of all chains that begin among some elements. -/
def chains : List Element → Except StructuralError (List Sketch)
  | [] => .ok []
  | element :: rest => do
    let here ← if element.name = "block" then chain element else .ok []
    let others ← chains rest
    .ok (here ++ others)

/-- The statements of a document. -/
def statements (root : Element) : Except StructuralError (List Sketch) :=
  if root.name = "xml" then chains root.children
  else .error (.unexpectedElement "xml" root.name)

/-- Reads a document. -/
def read (document : String) : Except StructuralError (List Sketch) := do
  let root ← (Element.read document.toList).mapError .markup
  statements root

end RuleTree.Block
