import RuleTree.Evaluation.Interpret
import RuleTree.Program.Interface
import RuleTree.Text.Split
import RuleTree.Value.Json

/-!
# Program versions

A version of a program is an interface together with the tree that implements it. To run it, the
arguments, given as JSON, are bound to the definitions of the interface's variables, and the tree is
evaluated. Arguments and fields that are missing or do not suit their declaration stay unbound.
-/

namespace RuleTree

/-- A version of a program. -/
structure Version where
  id : Int
  interface : Interface
  /-- The definitions of the interface's variables, in the order of their declaration. -/
  definitions : List ContentRef
  /-- The root of the tree that implements the program. -/
  entryPoint : Option NodeId

namespace Version

/-- A version whose variables have just been declared and that has no tree yet. -/
def create (id : Int) (interface : Interface) : Action Version := do
  let definitions ← interface.declareVariables
  pure ⟨id, interface, definitions, none⟩

/-- Whether every variable of the interface has a definition. -/
def isBound (version : Version) : Bool :=
  version.definitions.length == version.interface.variableNames.length

/-- The value of an entity: a reference to it if it has a number. -/
def entityValue (json : Json) (model : String) : Option Value :=
  match json with
  | .obj fields => do
    let id ← (← Entries.get? "id" fields).asInt64?
    some (.reference ⟨model, id⟩)
  | other => Value.ofJson? other

/-- The value of a field, by its type. -/
def fieldValue (json : Json) (field : ArgumentField) : Option Value :=
  match json, field.type with
  | .null, _ => some .null
  | json, .model => entityValue json (field.model.getD "")
  | .str s, .date => (Date.read? s.toList).map .date
  | json, _ => Value.ofJson? json

/-- What lies at the end of some steps into nested objects. -/
def follow (json : Json) : List String → Option Json
  | [] => some json
  | step :: rest => (json.get? step).bind (follow · rest)

/-- The steps that the name of a field consists of. -/
def steps (name : String) : List String := (Text.splitAt '.' name.toList).map String.ofList

/-- The value that a source gives for some arguments. -/
def resolve (interface : Interface) (source : Source) (arguments : Fields) : Option Value :=
  match source with
  | .argument name => do
    let declared ← interface.argument? name
    entityValue (← Entries.get? name arguments) declared.model
  | .field name path => do
    let declared ← (← interface.argument? name).field? path
    let json ← follow (← Entries.get? name arguments) (steps path)
    fieldValue json declared

/-- Binds the variables with the given definitions; what was bound before an error stays bound. -/
def bindDefinitions (records : Records) (interface : Interface) (arguments : Fields) :
    List ContentRef → EvalM Unit
  | [] => pure ()
  | ref :: rest => do
    match ← Evaluation.read (Reading.fetch (records.object ref)) with
    | .definition _ (some source) =>
      match resolve interface source arguments with
      | some value => Evaluation.bind ref.id value
      | none => pure ()
      bindDefinitions records interface arguments rest
    | _ => throw (.creation (.notExternallyDeclared ref))

/-- Binds the variables of the interface to the values that the arguments give them. -/
def bindArguments (version : Version) (records : Records) (arguments : Fields) : EvalM Unit :=
  if version.isBound then
    bindDefinitions records version.interface arguments version.definitions
  else throw (.creation (.unboundVersion version.id))

/-- Runs a step of an evaluation from the bindings of a context. -/
def runIn {α : Type} (step : EvalM α) (context : Context) : Except Error α × Context × Nat :=
  let (result, run) := step ⟨Reading.start, context⟩
  (result, run.context, run.reading.fetches)

/-- Binds the arguments and evaluates the tree of the program. -/
def execute [Host] (version : Version) (records : Records) (arguments : Fields)
    (context : Context) : Except Error Value × Context × Nat :=
  match version.entryPoint with
  | none => (.error (.store (.noEntryPoint version.id)), context, 0)
  | some entryPoint =>
    let bound := do
      version.bindArguments records arguments
      Evaluation.read (Reading.fetch (records.node entryPoint))
    match runIn bound context with
    | (.error cause, context, fetches) => (.error cause, context, fetches)
    | (.ok root, context, fetches) =>
      let (result, context, more) := interpret records root context
      (result, context, fetches + more)

end Version

end RuleTree
