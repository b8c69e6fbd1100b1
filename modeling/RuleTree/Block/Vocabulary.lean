import RuleTree.Operator.Symbol

/-!
# The vocabulary of block documents

The names of block types, fields and slots, and which operator is written as which block. Several
operators share a block type and are told apart by a code in the field `OP`.
-/

namespace RuleTree.Block

/-! ## Block types -/

def mathNumber : String := "math_number"
def text : String := "text"
def logicBoolean : String := "logic_boolean"
def date : String := "business_logic_date"
def reference : String := "business_logic_reference"
def variablesGet : String := "variables_get"
def variablesSet : String := "variables_set"
def mathArithmetic : String := "math_arithmetic"
def mathModulo : String := "math_modulo"
def mathSingle : String := "math_single"
def logicCompare : String := "logic_compare"
def logicOperation : String := "logic_operation"
def logicNegate : String := "logic_negate"
def function : String := "business_logic_function"

/-! ## Operators -/

/-- How an operator is written: the block type and the code that tells it from others. -/
structure OperatorBlock where
  blockType : String
  code : Option String
deriving DecidableEq

/-- The block of an operator between two values. -/
def ofBinary : BinaryOp → OperatorBlock
  | .add => ⟨mathArithmetic, some "ADD"⟩
  | .sub => ⟨mathArithmetic, some "MINUS"⟩
  | .mul => ⟨mathArithmetic, some "MULTIPLY"⟩
  | .div => ⟨mathArithmetic, some "DIVIDE"⟩
  | .pow => ⟨mathArithmetic, some "POWER"⟩
  | .mod => ⟨mathModulo, none⟩
  | .eq => ⟨logicCompare, some "EQ"⟩
  | .ne => ⟨logicCompare, some "NEQ"⟩
  | .lt => ⟨logicCompare, some "LT"⟩
  | .le => ⟨logicCompare, some "LTE"⟩
  | .gt => ⟨logicCompare, some "GT"⟩
  | .ge => ⟨logicCompare, some "GTE"⟩
  | .and => ⟨logicOperation, some "AND"⟩
  | .or => ⟨logicOperation, some "OR"⟩

/-- The block of an operator on one value. -/
def ofUnary : UnaryOp → OperatorBlock
  | .neg => ⟨mathSingle, some "NEG"⟩
  | .abs => ⟨mathSingle, some "ABS"⟩
  | .not => ⟨logicNegate, none⟩

/-- The operator between two values that a block is. -/
def toBinary? (block : OperatorBlock) : Option BinaryOp :=
  BinaryOp.all.find? fun op => ofBinary op = block

/-- The operator on one value that a block is. -/
def toUnary? (block : OperatorBlock) : Option UnaryOp :=
  UnaryOp.all.find? fun op => ofUnary op = block

theorem toBinary?_ofBinary (op : BinaryOp) : toBinary? (ofBinary op) = some op := by
  cases op <;> decide

theorem toUnary?_ofUnary (op : UnaryOp) : toUnary? (ofUnary op) = some op := by
  cases op <;> decide

/-- No block is an operator of both kinds. -/
theorem toBinary?_ofUnary (op : UnaryOp) : toBinary? (ofUnary op) = none := by
  cases op <;> decide

/-- Whether some operator between two values has the block type. -/
def isBinaryType (blockType : String) : Bool :=
  BinaryOp.all.any fun op => (ofBinary op).blockType = blockType

/-- Whether some operator on one value has the block type. -/
def isUnaryType (blockType : String) : Bool :=
  UnaryOp.all.any fun op => (ofUnary op).blockType = blockType

/-! ## Slots -/

/-- The slots for the operands of an operator, in order. -/
def operandSlots (blockType : String) : List String :=
  if blockType = mathArithmetic ∨ blockType = logicCompare ∨ blockType = logicOperation then
    ["A", "B"]
  else if blockType = mathModulo then ["DIVIDEND", "DIVISOR"]
  else if blockType = mathSingle then ["NUM"]
  else if blockType = logicNegate then ["BOOL"]
  else []

/-- The slot for an argument of a function. -/
def argumentSlot (index : Nat) : String := "ARG" ++ String.ofList (Nat.toDigits 10 index)

end RuleTree.Block
