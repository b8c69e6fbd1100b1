import RuleTree.Content.Basic
import RuleTree.Function.Library
import RuleTree.Operator.Apply

/-!
# Objects whose result depends on their children alone

Constants, operators and definitions are evaluated from the values of their children. Variables,
assignments and calls need the bindings, so they are no business of this module and cannot be
evaluated here.
-/

namespace RuleTree.Content

/-- The result of an object from the results of its children. -/
def evaluate (content : Content) (args : List Value) : Except EvaluationError Value :=
  match content.constant? with
  | some value => do
    checkArity content.kind 0 args.length
    .ok value
  | none =>
    match content, args with
    | binary symbol, [left, right] => applyBinary symbol left right
    | binary _, args => .error (.arity .binary 2 args.length)
    | unary symbol, [operand] => applyUnary symbol operand
    | unary _, args => .error (.arity .unary 1 args.length)
    | definition _ _, _ => .ok .null
    | content, _ => .error (.notEvaluable content.kind)

end RuleTree.Content
