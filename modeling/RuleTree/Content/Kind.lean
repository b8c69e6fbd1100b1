/-!
# Kinds of content

The set of kinds is closed. Each kind has a tag, which is its name in data and in messages, and the
order of `Kind.all` is the order in which objects are listed.
-/

namespace RuleTree

/-- What a content object is. -/
inductive Kind where
  | integer
  | float
  | text
  | boolean
  | date
  | reference
  /-- A use of a variable. -/
  | use
  /-- The definition that gives a variable its name. -/
  | definition
  | assignment
  | binary
  | unary
  /-- A call of a library function. -/
  | call
deriving DecidableEq, Repr

namespace Kind

/-- Every kind, in order. -/
def all : List Kind :=
  [integer, float, text, boolean, date, reference, use, definition, assignment, binary, unary, call]

/-- The place of a kind in the order. -/
def rank : Kind → Nat
  | integer => 0
  | float => 1
  | text => 2
  | boolean => 3
  | date => 4
  | reference => 5
  | use => 6
  | definition => 7
  | assignment => 8
  | binary => 9
  | unary => 10
  | call => 11

theorem rank_injective {a b : Kind} (same : a.rank = b.rank) : a = b := by
  cases a <;> cases b <;> first | rfl | exact absurd same (by decide)

theorem mem_all (kind : Kind) : kind ∈ all := by cases kind <;> decide

/-- The name of a kind. -/
def tag : Kind → String
  | integer => "integer_constant"
  | float => "float_constant"
  | text => "string_constant"
  | boolean => "boolean_constant"
  | date => "date_constant"
  | reference => "reference_constant"
  | use => "variable"
  | definition => "variable_definition"
  | assignment => "assignment"
  | binary => "binary_operator"
  | unary => "unary_operator"
  | call => "function"

/-- The kind with a given tag. -/
def ofTag? (tag : String) : Option Kind := all.find? fun kind => kind.tag = tag

theorem ofTag?_tag (kind : Kind) : ofTag? kind.tag = some kind := by cases kind <;> decide

/-- Whether objects of the kind hold a value of their own. -/
def isConstant : Kind → Bool
  | integer | float | text | boolean | date | reference => true
  | _ => false

end Kind

end RuleTree
