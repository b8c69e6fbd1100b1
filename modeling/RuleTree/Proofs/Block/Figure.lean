import RuleTree.Block.Creation
import RuleTree.Block.Writer
import RuleTree.Proofs.Number.Literals

/-!
# Block documents as trees

Between a stored tree and its document stands a figure: for each block of the document a mark, which
says what the block is, and the figures in its slots.  A figure has an element, by which it is
written, and a sketch, as which it is read.
-/

namespace RuleTree

namespace Block

/-- What a block is.  Variables are known by name. -/
inductive Mark where
  | integer (value : Int64)
  | float (value : Float)
  | text (value : String)
  | boolean (value : Bool)
  | date (value : Date)
  | reference (value : Reference)
  | use (name : String)
  | assignment (name : String)
  | binary (op : BinaryOp)
  | unary (op : UnaryOp)
  | call (title : String)

namespace Mark

/-- The block type and the operator code. -/
def block : Mark → OperatorBlock
  | integer _ | float _ => ⟨mathNumber, none⟩
  | text _ => ⟨Block.text, none⟩
  | boolean _ => ⟨logicBoolean, none⟩
  | date _ => ⟨Block.date, none⟩
  | reference _ => ⟨Block.reference, none⟩
  | use _ => ⟨variablesGet, none⟩
  | assignment _ => ⟨variablesSet, none⟩
  | binary op => ofBinary op
  | unary op => ofUnary op
  | call _ => ⟨function, none⟩

/-- The fields of the block. -/
def fields : Mark → List Element
  | integer n => [fieldElement "NUM" (String.ofList (Digits.writeInt n.toInt))]
  | float x => [fieldElement "NUM" (floatText x)]
  | text s => [fieldElement "TEXT" s]
  | boolean b => [fieldElement "BOOL" (if b then "TRUE" else "FALSE")]
  | date d => [fieldElement "DATE" d.text]
  | reference r =>
    [fieldElement "TYPE" r.model,
      fieldElement "VALUE" (String.ofList (Digits.writeInt r.id.toInt))]
  | use name | assignment name => [fieldElement "VAR" name]
  | binary op => ((ofBinary op).code.map (fieldElement "OP")).toList
  | unary op => ((ofUnary op).code.map (fieldElement "OP")).toList
  | call title => [fieldElement "FUNC" title]

/-- The names of the slots of the block. -/
def slots (mark : Mark) (count : Nat) : List String :=
  match mark with
  | assignment _ => ["VALUE"]
  | binary op => operandSlots (ofBinary op).blockType
  | unary op => operandSlots (ofUnary op).blockType
  | call _ => (List.range count).map argumentSlot
  | _ => []

/-- The data that are read from the block. -/
def data : Mark → Fields
  | integer n => Sketch.dataOf .integer [("value", .int n.toInt)]
  | float x => Sketch.dataOf .float [("value", Json.ofFloat x)]
  | text s => Sketch.dataOf .text [("value", .str s)]
  | boolean b => Sketch.dataOf .boolean [("value", .bool b)]
  | date d => Sketch.dataOf .date [("value", .str d.text)]
  | reference r => Sketch.dataOf .reference [("model", .str r.model), ("value", .int r.id.toInt)]
  | use name => Sketch.dataOf .use [("name", .str name)]
  | assignment _ => Sketch.dataOf .assignment []
  | binary op => Sketch.dataOf .binary [("operator", .str op.symbol)]
  | unary op => Sketch.dataOf .unary [("operator", .str op.symbol)]
  | call title => Sketch.dataOf .call [("definition", .str title)]

/-- The sketch of the variable of an assignment, which stands in a field. -/
def target : Mark → List Sketch
  | assignment name => [⟨Sketch.dataOf .use [("name", .str name)], []⟩]
  | _ => []

/-- How the block is attached to the block around it. -/
def wrapper : Mark → String
  | assignment _ => "statement"
  | _ => "value"

/-- Only numbers can be written. -/
def Readable : Mark → Prop
  | float x => Binary64.isFinite x = true
  | _ => True

end Mark

/-- A block of a document with the blocks in its slots. -/
structure Figure where
  mark : Mark
  /-- The number of the node that the block was written for, if it is shown. -/
  id : Option String
  operands : List Figure

namespace Figure

/-- The data with the number of the node among them, if it is shown. -/
def withId (id : Option String) (data : Fields) : Fields :=
  match id with
  | some id => Entries.insert "id" (.str id) data
  | none => data

/-- The attributes of a block. -/
def attributes (mark : Mark) (id : Option String) : List (String × String) :=
  ("type", mark.block.blockType) :: (id.map fun id => ("id", id)).toList

mutual

/-- The element of a figure. -/
def element : Figure → Element
  | ⟨mark, id, operands⟩ =>
    ⟨"block", attributes mark id, "", mark.fields ++ slotted operands (mark.slots operands.length)⟩

/-- Figures in their slots. -/
def slotted : List Figure → List String → List Element
  | ⟨mark, id, operands⟩ :: rest, slot :: slots =>
    ⟨mark.wrapper, [("name", slot)], "", [element ⟨mark, id, operands⟩]⟩ :: slotted rest slots
  | _, _ => []

end

mutual

/-- What a figure is read as. -/
def sketch : Figure → Sketch
  | ⟨mark, id, operands⟩ => ⟨withId id mark.data, mark.target ++ sketches operands⟩

def sketches : List Figure → List Sketch
  | [] => []
  | figure :: rest => sketch figure :: sketches rest

end

mutual

/-- There are as many figures as slots, and everything can be read. -/
def Fits : Figure → Prop
  | ⟨mark, _, operands⟩ =>
    (mark.slots operands.length).length = operands.length ∧ mark.Readable ∧ AllFit operands

def AllFit : List Figure → Prop
  | [] => True
  | figure :: rest => Fits figure ∧ AllFit rest

end

theorem Fits.readable {figure : Figure} (fits : figure.Fits) : figure.mark.Readable := by
  rcases figure with ⟨mark, id, operands⟩
  exact fits.2.1

mutual

/-- A figure without the numbers of nodes. -/
def bare : Figure → Figure
  | ⟨mark, _, operands⟩ => ⟨mark, none, bareAll operands⟩

def bareAll : List Figure → List Figure
  | [] => []
  | figure :: rest => bare figure :: bareAll rest

end

/-- The blocks of several figures, each in the `next` of the one before. -/
def chained : List Figure → List Element
  | [] => []
  | figure :: rest => [Block.chained figure.element (chained rest)]

/-- The document of several figures. -/
def document (figures : List Figure) : Element := ⟨"xml", [], "", chained figures⟩

end Figure

end Block

end RuleTree
