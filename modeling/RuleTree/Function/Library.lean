import RuleTree.Error
import RuleTree.Table
import RuleTree.Value.Basic

/-!
# Function libraries

A library holds functions by title. A call checks that the function exists and takes as many
arguments as there are, hands the arguments over, and reports what goes wrong inside of the function
under its title. A function that asks for it is given the context of the evaluation, and it may read
and change all of it: the bindings of variables, the way in which trees are read, and the library.
-/

namespace RuleTree

/-- The values of variables, by their definitions. -/
abbrev Bindings := Table ObjectId Value

/-- Reports a wrong number of children or arguments. -/
def checkArity (kind : Kind) (expected got : Nat) : Except EvaluationError Unit :=
  if expected = got then .ok () else .error (.arity kind expected got)

/-- A declared argument of a function. -/
structure Parameter where
  name : Option String
  order : Nat
deriving DecidableEq

/-- Where the program around the rules keeps a function. -/
structure Address where
  val : Nat
deriving DecidableEq

/-- What a function does with its arguments. -/
inductive FunctionBody where
  /-- The result depends on the arguments alone. -/
  | pure (run : List Value → Except String Value)
  /-- The function sees the bindings and may change them; the rest of the context is nothing to
  it. -/
  | withBindings (run : List Value → Bindings → Except String Value × Bindings)
  /-- The function is given the whole context. A context holds a library in turn, so a library only
  says where such a function is kept; `Host` says what it does. -/
  | withContext (address : Address)

/-- Whether the function asks for more than its arguments. -/
def FunctionBody.needsBindings : FunctionBody → Bool
  | pure _ => false
  | withBindings _ | withContext _ => true

/-- A function that rules can call. -/
structure FunctionDefinition where
  title : String
  parameters : List Parameter
  /-- Whether a call gives the result of the function; if not, it gives null. -/
  returnsValue : Bool
  body : FunctionBody

/-- A function with named parameters that returns its result. -/
def FunctionDefinition.named (title : String) (names : List String) (body : FunctionBody) :
    FunctionDefinition :=
  ⟨title, names.zipIdx.map fun (name, order) => ⟨some name, order⟩, true, body⟩

/-- Functions by title. -/
abbrev Library := Table String FunctionDefinition

/-- What an evaluation is given: values of variables, functions, and how to read trees. -/
structure Context where
  bindings : Bindings
  /-- Whether trees are read through a snapshot. -/
  cache : Bool
  library : Library

/-- The program around the rules: what the functions do that it keeps. -/
class Host where
  run : Address → List Value → Context → Except String Value × Context

/-- A program that keeps no functions. -/
instance (priority := low) Host.empty : Host :=
  ⟨fun _ _ context => (.error "there is no such function", context)⟩

/-- Runs a function on its arguments in a context. -/
def FunctionBody.run [Host] (body : FunctionBody) (args : List Value) (context : Context) :
    Except String Value × Context :=
  match body with
  | pure run => (run args, context)
  | withBindings run =>
    let (result, bindings) := run args context.bindings
    (result, { context with bindings })
  | withContext address => Host.run address args context

namespace Library

/-- Adds a function, in place of one with the same title. -/
def register (library : Library) (function : FunctionDefinition) : Library :=
  library.insert function.title function

/-- The library of a list of functions. -/
def ofFunctions (functions : List FunctionDefinition) : Library :=
  functions.foldl register Table.empty

/-- Calls a function by title with its arguments in order, and gives it a context. -/
def callIn [Host] (library : Library) (title : String) (args : List Value) (context : Context) :
    Except EvaluationError Value × Context :=
  match library.get? title with
  | none => (.error (.unknownFunction title), context)
  | some function =>
    match checkArity .call function.parameters.length args.length with
    | .error cause => (.error cause, context)
    | .ok _ =>
      match function.body.run args context with
      | (.error message, context) => (.error (.functionFailed title message), context)
      | (.ok value, context) => (.ok (if function.returnsValue then value else .null), context)

/-- Calls a function outside of an evaluation, in a context of the library with some bindings. -/
def call [Host] (library : Library) (title : String) (args : List Value) (bindings : Bindings) :
    Except EvaluationError Value × Bindings :=
  let (result, context) := library.callIn title args ⟨bindings, true, library⟩
  (result, context.bindings)

end Library

end RuleTree
