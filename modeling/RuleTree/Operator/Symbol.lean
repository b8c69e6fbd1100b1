/-!
# Operators and their symbols

Operators are stored under their symbols; a symbol outside of these lists names no operator. The
minus sign names an operator of either list.
-/

namespace RuleTree

/-- The operators between two values. -/
inductive BinaryOp where
  | add
  | sub
  | mul
  | div
  | mod
  | pow
  | eq
  | ne
  | lt
  | le
  | gt
  | ge
  | and
  | or
deriving DecidableEq, Repr

namespace BinaryOp

/-- Every operator between two values. -/
def all : List BinaryOp := [add, sub, mul, div, mod, pow, eq, ne, lt, le, gt, ge, and, or]

/-- The symbol of an operator. -/
def symbol : BinaryOp → String
  | add => "+"
  | sub => "-"
  | mul => "*"
  | div => "/"
  | mod => "%"
  | pow => "^"
  | eq => "=="
  | ne => "!="
  | lt => "<"
  | le => "<="
  | gt => ">"
  | ge => ">="
  | and => "and"
  | or => "or"

/-- The operator with a symbol. -/
def ofSymbol? (symbol : String) : Option BinaryOp := all.find? fun op => op.symbol = symbol

theorem ofSymbol?_symbol (op : BinaryOp) : ofSymbol? op.symbol = some op := by
  cases op <;> decide

theorem symbol_of_ofSymbol? {symbol : String} {op : BinaryOp} (h : ofSymbol? symbol = some op) :
    op.symbol = symbol := by
  simpa using List.find?_some h

end BinaryOp

/-- The operators on one value. -/
inductive UnaryOp where
  | neg
  | not
  | abs
deriving DecidableEq, Repr

namespace UnaryOp

/-- Every operator on one value. -/
def all : List UnaryOp := [neg, not, abs]

/-- The symbol of an operator. -/
def symbol : UnaryOp → String
  | neg => "-"
  | not => "not"
  | abs => "abs"

/-- The operator with a symbol. -/
def ofSymbol? (symbol : String) : Option UnaryOp := all.find? fun op => op.symbol = symbol

theorem ofSymbol?_symbol (op : UnaryOp) : ofSymbol? op.symbol = some op := by
  cases op <;> decide

theorem symbol_of_ofSymbol? {symbol : String} {op : UnaryOp} (h : ofSymbol? symbol = some op) :
    op.symbol = symbol := by
  simpa using List.find?_some h

end UnaryOp

end RuleTree
