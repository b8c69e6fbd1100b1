import RuleTree.Identity

/-!
# Nodes

A node knows its parent, its place among the children of its parent and the content object that it
wraps. Which children it has is for the store to say.
-/

namespace RuleTree

/-- A node of a rule tree. -/
structure Node where
  id : NodeId
  /-- The parent; roots have none. -/
  parent : Option NodeId
  /-- The place among the siblings, counted from zero. -/
  position : Nat
  /-- The content object; blocks have none. -/
  content : Option ContentRef
deriving DecidableEq

namespace Node

/-- Whether the node is at the top of its tree. -/
def isRoot (node : Node) : Bool := node.parent.isNone

/-- Whether the node is a plain sequence of statements. -/
def isBlock (node : Node) : Bool := node.content.isNone

/-- Whether the node wraps a content object. -/
def isStatement (node : Node) : Bool := node.content.isSome

end Node

end RuleTree
