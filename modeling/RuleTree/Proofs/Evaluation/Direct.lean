import RuleTree.Block.Creation
import RuleTree.Operator.Apply
import RuleTree.Proofs.Function.Contexts
import RuleTree.Proofs.Outcome

/-!
# The meaning of a sketch

A sketch has a meaning of its own, before anything of it is stored.  `Sketch.label?` is what the
data of a part say, and `Sketch.evaluate` evaluates a tree from its labels alone, depth first and
from left to right, with the values of variables under their names.
-/

namespace RuleTree

/-- What a part of a sketch stands for. -/
inductive Label where
  | literal (value : Value)
  | use (name : String)
  | assignment
  | binary (symbol : String)
  | unary (symbol : String)
  | call (title : String)

/-- The values of variables, by their names. -/
abbrev Environment := Table String Value

namespace Sketch

/-- An entry of data that is a text. -/
def textOf? (data : Fields) (key : String) : Option String :=
  (Entries.get? key data).bind Json.asStr?

/-- The value that the data of a constant hold. -/
def literal? (data : Fields) : Kind → Option Value
  | .integer => ((Entries.get? "value" data).bind Json.asInt64?).map .int
  | .float => ((Entries.get? "value" data).bind Json.asFloat?).map .float
  | .text => (textOf? data "value").map .str
  | .boolean => ((Entries.get? "value" data).bind Json.asBool?).map .bool
  | .date => ((textOf? data "value").bind fun raw => Date.read? raw.toList).map .date
  | .reference =>
    match textOf? data "model", (Entries.get? "value" data).bind Json.asInt64? with
    | some model, some id => some (.reference ⟨model, id⟩)
    | _, _ => none
  | _ => none

/-- What data stand for.  Definitions stand for nothing; they are not written in a tree. -/
def label? (data : Fields) : Option Label :=
  match kind? ⟨data, []⟩ with
  | some .use => (textOf? data "name").map .use
  | some .assignment => some .assignment
  | some .binary => (textOf? data "operator").map .binary
  | some .unary => (textOf? data "operator").map .unary
  | some .call => (textOf? data "definition").map .call
  | some kind => (literal? data kind).map .literal
  | none => none

/-- The name of the variable that a part stands for. -/
def used? (part : Sketch) : Option String :=
  match label? part.data with
  | some (.use name) => some name
  | _ => none

/-- The names of the variables in a tree, each once, in the order of their first use. -/
def variableNames (tree : Sketch) : List String := (tree.walk.filterMap used?).eraseDups

theorem walkAll_append (first second : List Sketch) :
    walkAll (first ++ second) = walkAll first ++ walkAll second := by
  induction first with
  | nil => rfl
  | cons tree rest ih => rw [List.cons_append, walkAll, walkAll, ih, List.append_assoc]

theorem mem_walkAll {part : Sketch} {trees : List Sketch} :
    part ∈ walkAll trees ↔ ∃ tree ∈ trees, part ∈ tree.walk := by
  induction trees with
  | nil => simp [walkAll]
  | cons tree rest ih => simp [walkAll, ih]

/-- The result of an operator or a function from the values of its children. -/
def apply [Host] (library : Library) : Label → List Value → Except EvaluationError Value
  | .binary symbol, [left, right] => applyBinary symbol left right
  | .binary _, args => .error (.arity .binary 2 args.length)
  | .unary symbol, [operand] => applyUnary symbol operand
  | .unary _, args => .error (.arity .unary 1 args.length)
  | .call title, args => library.apply title args
  | _, _ => .error (.notEvaluable .assignment)

/-- A step of an evaluation by names. -/
abbrev NamedM := ExceptT Error (StateM Environment)

/-- The value of a variable. -/
def lookup (name : String) : NamedM Value := fun environment =>
  match environment.get? name with
  | some value => (.ok value, environment)
  | none => (.error (.evaluation (.unboundVariable name)), environment)

/-- Gives a variable a value. -/
def assign (name : String) (value : Value) : NamedM Value := fun environment =>
  (.ok .null, environment.insert name value)

/-- A result that does not depend on variables. -/
def give (result : Except EvaluationError Value) : NamedM Value := fun environment =>
  (result.mapError .evaluation, environment)

/-- A tree that stands for nothing. -/
def meaningless : NamedM Value := throw (.creation (.missingData "content_type"))

mutual

/-- The value of a tree that is no block. -/
def evaluate [Host] (library : Library) : Sketch → NamedM Value
  | ⟨data, children⟩ =>
    match label? data with
    | some (.literal value) => pure value
    | some (.use name) => lookup name
    | some .assignment =>
      match children with
      | [target, expression] =>
        match target.used? with
        | some name => do assign name (← evaluate library expression)
        | none => meaningless
      | _ => meaningless
    | some label => do give (apply library label (← evaluateAll library children))
    | none => meaningless

/-- The values of trees, from left to right. -/
def evaluateAll [Host] (library : Library) : List Sketch → NamedM (List Value)
  | [] => pure []
  | tree :: rest => do
    let value ← evaluate library tree
    let values ← evaluateAll library rest
    pure (value :: values)

end

theorem evaluateAll_cons [Host] {library : Library} {tree : Sketch} {rest : List Sketch}
    {value : Value} {values : List Value} {environment middle after : Environment}
    (here : evaluate library tree environment = (.ok value, middle))
    (others : evaluateAll library rest middle = (.ok values, after)) :
    evaluateAll library (tree :: rest) environment = (.ok (value :: values), after) := by
  rw [evaluateAll, Step.bind_of_ok here, Step.bind_of_ok others]
  rfl

/-- The value of a whole sketch: a block has a null for each of its variables and then the values of
its statements. -/
def run [Host] (library : Library) (tree : Sketch) : NamedM Value :=
  if tree.isBlock then do
    let values ← evaluateAll library tree.children
    pure (.list (List.replicate tree.variableNames.length .null ++ values))
  else evaluate library tree

end Sketch

end RuleTree
