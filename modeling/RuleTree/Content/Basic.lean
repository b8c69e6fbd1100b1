import RuleTree.Identity
import RuleTree.Value.Basic

/-!
# Content objects

A node of a rule tree wraps at most one content object, which says what the node does with the
results of its children. Operators and functions are named and not resolved here, so that an object
may name one that does not exist.
-/

namespace RuleTree

/-- Where the value of a declared variable comes from. -/
inductive Source where
  /-- A whole argument of a program. -/
  | argument (argument : String)
  /-- A field of an argument, with dots between the steps that lead to it. -/
  | field (argument field : String)
deriving DecidableEq

/-- A content object. -/
inductive Content where
  | integer (value : Int64)
  | float (value : Float)
  | text (value : String)
  | boolean (value : Bool)
  | date (value : Date)
  | reference (value : Reference)
  /-- The use of a variable, which names its definition. -/
  | use (definition : ObjectId)
  /-- The definition of a variable; only declared variables have a source. -/
  | definition (name : String) (source : Option Source)
  /-- Children: the variable, then the expression whose value it gets. -/
  | assignment
  | binary (operator : String)
  | unary (operator : String)
  /-- A call of the function with a title. -/
  | call (title : String)
deriving DecidableEq

/-- How many children the objects of a kind expect. -/
inductive Arity where
  | fixed (count : Nat)
  /-- As many as the function declares that is called. -/
  | declared
deriving DecidableEq

/-- How a child is attached to its parent in a document. -/
inductive Slot where
  /-- The child gives a value. -/
  | value
  /-- The child is carried out for its effect. -/
  | statement
deriving DecidableEq

/-- How many children the objects of a kind expect. -/
def Kind.arity : Kind → Arity
  | assignment | binary => .fixed 2
  | unary => .fixed 1
  | call => .declared
  | _ => .fixed 0

namespace Content

/-- What the object is. -/
def kind : Content → Kind
  | integer _ => .integer
  | float _ => .float
  | text _ => .text
  | boolean _ => .boolean
  | date _ => .date
  | reference _ => .reference
  | use _ => .use
  | definition _ _ => .definition
  | assignment => .assignment
  | binary _ => .binary
  | unary _ => .unary
  | call _ => .call

/-- How many children the object expects. -/
def arity (content : Content) : Arity := content.kind.arity

/-- How the object's node is attached to its parent in a document. -/
def slot : Content → Slot
  | assignment => .statement
  | _ => .value

/-- The value that a constant holds. -/
def constant? : Content → Option Value
  | integer n => some (.int n)
  | float x => some (.float x)
  | text s => some (.str s)
  | boolean b => some (.bool b)
  | date d => some (.date d)
  | reference r => some (.reference r)
  | _ => none

end Content

end RuleTree
