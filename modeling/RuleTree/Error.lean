import RuleTree.Identity

/-!
# Errors

Each layer has its own causes of failure, and each cause has one message. An `Error` is a cause of
any layer.
-/

namespace RuleTree

/-- What is wrong with a text that should be markup. -/
inductive MarkupFault where
  /-- The text ends before an outermost element is closed. -/
  | noRoot
  /-- The text breaks a rule of markup. -/
  | malformed
deriving DecidableEq

/-- A document that is no rule document, or a tree that cannot be written as one. -/
inductive StructuralError where
  | markup (fault : MarkupFault)
  | unexpectedElement (expected found : String)
  /-- A node has more children than its block has slots. -/
  | surplusChildren (count : Nat)
  | missingAttribute (element name : String)
  | unknownBlockType (blockType : String)
  | missingField (blockType field : String)
  | invalidField (blockType field value : String)
  | missingSlot (kind : Kind) (node : NodeId) (slot : String)
  | unsupportedOperator (operator : String)
  /-- A node below a root has no content object. -/
  | emptyStatement (node : NodeId)
deriving DecidableEq

/-- A tree from a document that cannot be stored. -/
inductive CreationError where
  | notADefinition (ref : ContentRef)
  | notExternallyDeclared (ref : ContentRef)
  | unboundVersion (version : Int)
  | missingData (field : String)
  | unknownKind (tag : String)
  | invalidData (kind : Kind) (field value : String)
  | unknownFunction (title : String)
  | arity (kind : Kind) (expected got : Nat)
  | unresolvedVariable (name : String)
deriving DecidableEq

/-- A failure of an evaluation. -/
inductive EvaluationError where
  | unknownOperator (operator : String)
  | arity (kind : Kind) (expected got : Nat)
  | unboundVariable (name : String)
  | invalidAssignmentTarget (kind : Kind)
  | typeMismatch (operator operands : String)
  | divisionByZero
  | overflow (operator : String)
  | unknownFunction (title : String)
  | functionFailed (title message : String)
  | notEvaluable (kind : Kind)
deriving DecidableEq

/-- A failure of the store. -/
inductive StoreError where
  | nodeNotFound (node : NodeId)
  | objectNotFound (ref : ContentRef)
  | notAChild (child parent : NodeId)
  | transaction (reason : String)
  /-- The deletion of an object was refused. -/
  | cannotDelete (ref : ContentRef)
  /-- A program version was run without an entry point. -/
  | noEntryPoint (version : Int)
  /-- A walk went down through more nodes than there are, so that a node lies below itself. -/
  | endlessDescent (node : NodeId)
deriving DecidableEq

/-- A cause of failure of any layer. -/
inductive Error where
  | structural (cause : StructuralError)
  | creation (cause : CreationError)
  | evaluation (cause : EvaluationError)
  | store (cause : StoreError)
deriving DecidableEq

/-- The text of a count. -/
def countText (n : Nat) : String := String.ofList (Digits.writeNat n)

/-- What messages say about a wrong number of children. -/
def arityText (kind : Kind) (expected got : Nat) : String :=
  kind.tag ++ " expects " ++ countText expected ++ " children, got " ++ countText got

/-- The message about a document. -/
def StructuralError.message : StructuralError → String
  | .markup .noRoot => "malformed XML: document has no root element"
  | .markup .malformed => "malformed XML"
  | .unexpectedElement expected found =>
    "expected <" ++ expected ++ "> element, found <" ++ found ++ ">"
  | .surplusChildren count =>
    "expected <one child per slot> element, found <" ++ countText count ++ " children>"
  | .missingAttribute element name =>
    "<" ++ element ++ "> is missing the '" ++ name ++ "' attribute"
  | .unknownBlockType blockType => "unknown block type '" ++ blockType ++ "'"
  | .missingField blockType field =>
    "block '" ++ blockType ++ "' is missing field '" ++ field ++ "'"
  | .invalidField blockType field value =>
    "block '" ++ blockType ++ "' has an invalid " ++ field ++ " field: '" ++ value ++ "'"
  | .missingSlot kind node slot =>
    kind.tag ++ " node " ++ node.text ++ " is missing child slot '" ++ slot ++ "'"
  | .unsupportedOperator operator => "operator '" ++ operator ++ "' has no block representation"
  | .emptyStatement node => "node " ++ node.text ++ " has no content object but is not a root"

/-- The message about a tree that is to be stored. -/
def CreationError.message : CreationError → String
  | .notADefinition ref => "external definition " ++ ref.text ++ " is not a variable definition"
  | .notExternallyDeclared ref =>
    "variable definition " ++ ref.text ++ " is not declared by a program interface"
  | .unboundVersion version =>
    "program version " ++ idText version ++ " does not expose its interface variables"
  | .missingData field => "parsed node has no '" ++ field ++ "' entry"
  | .unknownKind tag => "unknown content type '" ++ tag ++ "'"
  | .invalidData kind field value =>
    "invalid '" ++ field ++ "' for " ++ kind.tag ++ ": " ++ value
  | .unknownFunction title => "unknown function definition '" ++ title ++ "'"
  | .arity kind expected got => arityText kind expected got
  | .unresolvedVariable name => "variable '" ++ name ++ "' was not resolved to a definition"

/-- The message about an evaluation. -/
def EvaluationError.message : EvaluationError → String
  | .unknownOperator operator => "unknown operator '" ++ operator ++ "'"
  | .arity kind expected got => arityText kind expected got
  | .unboundVariable name => "variable '" ++ name ++ "' is not bound"
  | .invalidAssignmentTarget kind => "assignment target must be a variable, found " ++ kind.tag
  | .typeMismatch operator operands =>
    "operator '" ++ operator ++ "' cannot be applied to " ++ operands
  | .divisionByZero => "division by zero"
  | .overflow operator => "integer overflow in '" ++ operator ++ "'"
  | .unknownFunction title => "unknown function definition '" ++ title ++ "'"
  | .functionFailed title message => "function '" ++ title ++ "' failed: " ++ message
  | .notEvaluable kind => kind.tag ++ " cannot be evaluated"

/-- The message about the store. -/
def StoreError.message : StoreError → String
  | .nodeNotFound node => "node " ++ node.text ++ " not found"
  | .objectNotFound ref => "content object " ++ ref.text ++ " not found"
  | .notAChild child parent =>
    "node " ++ child.text ++ " is not a child of node " ++ parent.text
  | .transaction reason => "transaction failed: " ++ reason
  | .cannotDelete ref => "store backend error: cannot delete " ++ ref.text
  | .noEntryPoint version =>
    "store backend error: program version " ++ idText version ++ " has no entry point"
  | .endlessDescent node => "node " ++ node.text ++ " lies below itself"

/-- The message of any cause. -/
def Error.message : Error → String
  | .structural cause => cause.message
  | .creation cause => cause.message
  | .evaluation cause => cause.message
  | .store cause => cause.message

end RuleTree
