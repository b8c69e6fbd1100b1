import RuleTree.Content.Evaluate
import RuleTree.Function.Builtin
import RuleTree.Tree.Reading

/-!
# Evaluating a tree

Evaluation goes depth first and strictly from left to right: the children of a node give their
results in order before the object of the node is applied to them, so that an assignment is seen by
everything after it. A block gives the list of its children's results, any other node the value of
its object. The first error ends the evaluation; what was bound until then stays bound.
-/

namespace RuleTree

/-- No variable is bound, there are no functions, and trees are read through a snapshot. -/
def Context.empty : Context := ⟨.empty, true, .empty⟩

/-- No variable is bound, the functions are the built-in ones, and trees are read through a
snapshot. -/
def Context.fresh : Context := { Context.empty with library := Builtin.library }

/-- How the context reads trees. -/
def Context.access (context : Context) : Access := if context.cache then .cached else .direct

/-- The state of an evaluation. -/
structure Run where
  reading : Reading
  context : Context

/-- A step of an evaluation. -/
abbrev EvalM := ExceptT Error (StateM Run)

namespace Evaluation

/-- A step that reads the tree. -/
def read {α : Type} (step : ReadM α) : EvalM α := fun run =>
  let (result, reading) := step run.reading
  (result, { run with reading })

/-- A result that needs neither the tree nor the context. -/
def give {α : Type} (result : Except EvaluationError α) : EvalM α := fun run =>
  (result.mapError .evaluation, run)

/-- The values that are bound now. -/
def bindings : EvalM Bindings := fun run => (.ok run.context.bindings, run)

/-- Binds a variable. -/
def bind (definition : ObjectId) (value : Value) : EvalM Unit := fun run =>
  (.ok (), { run with context.bindings := run.context.bindings.insert definition value })

/-- Calls a function of the library that the context has now. -/
def call [Host] (title : String) (args : List Value) : EvalM Value := fun run =>
  let (result, context) := run.context.library.callIn title args run.context
  (result.mapError .evaluation, { run with context })

section

variable (records : Records) (access : Access)

/--
The name of a variable in messages: the name of its definition, or the number of a definition that
cannot be read. Looking for the name never fails, but it counts as reading.
-/
def variableName (definition : ObjectId) : EvalM String := fun run =>
  match Reading.object records access ⟨.definition, definition⟩ run.reading with
  | (.ok (.definition name _), reading) => (.ok name, { run with reading })
  | (_, reading) => (.ok ("#" ++ definition.text), { run with reading })

/-- The value of a variable. -/
def lookup (definition : ObjectId) : EvalM Value := do
  match (← bindings).get? definition with
  | some value => pure value
  | none => do
    let name ← variableName records access definition
    throw (.evaluation (.unboundVariable name))

/-- The definition of the variable that an assignment is to bind. -/
def assignmentTarget (target : Node) : EvalM ObjectId := do
  match ← read (Reading.content records access target) with
  | some (.use definition) => pure definition
  | some content => throw (.evaluation (.invalidAssignmentTarget content.kind))
  | none => throw (.structural (.emptyStatement target.id))

/-- The results of nodes in order. -/
def results (evaluate : Node → EvalM Value) : List Node → EvalM (List Value)
  | [] => pure []
  | node :: rest => do
    let value ← evaluate node
    let values ← results evaluate rest
    pure (value :: values)

/-- The value of a node with an object, from its children and a way to evaluate them. -/
def statement [Host] (evaluate : Node → EvalM Value) (content : Content) (children : List Node) :
    EvalM Value := do
  match content with
  | .assignment =>
    match children with
    | [target, expression] => do
      let definition ← assignmentTarget records access target
      let value ← evaluate expression
      bind definition value
      pure .null
    | _ => throw (.evaluation (.arity .assignment 2 children.length))
  | .use definition => do
    give (checkArity .use 0 children.length)
    lookup records access definition
  | .call title => do
    let args ← results evaluate children
    call title args
  | content => do
    let args ← results evaluate children
    give (content.evaluate args)

/-- The value of a node, going down at most `depth` levels. -/
def node [Host] : Nat → Node → EvalM Value
  | 0, node => throw (.store (.endlessDescent node.id))
  | depth + 1, node => do
    match ← read (Reading.content records access node) with
    | none =>
      if node.isRoot then do
        let children ← read (Reading.children records access node)
        return .list (← results (Evaluation.node depth) children)
      else throw (.structural (.emptyStatement node.id))
    | some content => do
      let children ← read (Reading.children records access node)
      statement records access (Evaluation.node depth) content children

end

end Evaluation

/-- The value of a node with the functions of a library, read from the records in the way given. -/
def evaluate [Host] (records : Records) (access : Access) (library : Library) (node : Node) :
    EvalM Value := fun run =>
  Evaluation.node records access records.depthBound node
    { run with context.library := library }

/-- Evaluates a node in a context and reads the tree in the way given, with the context afterwards
and the number of reads. -/
def interpretWith [Host] (records : Records) (access : Access) (node : Node) (context : Context) :
    Except Error Value × Context × Nat :=
  let (result, run) := evaluate records access context.library node ⟨Reading.start, context⟩
  (result, run.context, run.reading.fetches)

/-- Evaluates a node in a context, which says at the start how the tree is read. -/
def interpret [Host] (records : Records) (node : Node) (context : Context) :
    Except Error Value × Context × Nat :=
  interpretWith records context.access node context

end RuleTree
