import RuleTree.Tree.Store

/-!
# Program interfaces

An interface declares the arguments that a program is given: entities of some type with fields,
which may lie several steps away and are then named with dots. Every argument and every field is a
variable of the program, with a definition that says where its value comes from.
-/

namespace RuleTree

/-- The type of data in a field. -/
inductive FieldType where
  | number
  | string
  | date
  | dateTime
  | model
deriving DecidableEq, Repr

namespace FieldType

/-- Every type of data. -/
def all : List FieldType := [number, string, date, dateTime, model]

/-- The name of a type of data. -/
def tag : FieldType → String
  | number => "number"
  | string => "string"
  | date => "date"
  | dateTime => "datetime"
  | model => "model"

/-- The type of data with a name. -/
def ofTag? (tag : String) : Option FieldType := all.find? fun type => type.tag = tag

theorem ofTag?_tag (type : FieldType) : ofTag? type.tag = some type := by cases type <;> decide

end FieldType

/-- A field of an argument. -/
structure ArgumentField where
  /-- The steps to the field, with dots between them. -/
  name : String
  type : FieldType
  /-- The type of the entity in the field, if it is one. -/
  model : Option String
  /-- What people call the field. -/
  label : Option String
deriving DecidableEq

/-- An argument of a program. -/
structure Argument where
  name : String
  /-- The type of the entity. -/
  model : String
  /-- What people call the argument. -/
  label : Option String
  fields : List ArgumentField
deriving DecidableEq

/-- What a program is given. -/
structure Interface where
  code : String
  arguments : List Argument
deriving DecidableEq

/-- The field of an argument with a name. -/
def Argument.field? (argument : Argument) (name : String) : Option ArgumentField :=
  argument.fields.find? fun field => field.name = name

namespace Interface

/-- The argument with a name. -/
def argument? (interface : Interface) (name : String) : Option Argument :=
  interface.arguments.find? fun argument => argument.name = name

/-- The variables of one argument: the argument itself and its fields. -/
def variablesOf (argument : Argument) : List (String × Source) :=
  (argument.name, .argument argument.name) ::
    argument.fields.map fun field =>
      (argument.name ++ "." ++ field.name, .field argument.name field.name)

/-- The variables with their sources, in the order of declaration. -/
def declarations (interface : Interface) : List (String × Source) :=
  interface.arguments.flatMap variablesOf

/-- The names of the variables, in the order of declaration. -/
def variableNames (interface : Interface) : List String := interface.declarations.map (·.1)

/-- Stores a definition for each of some variables. -/
def saveDefinitions : List (String × Source) → Action (List ContentRef)
  | [] => pure []
  | (name, source) :: rest => do
    let ref ← Store.saveObject (.definition name (some source))
    let refs ← saveDefinitions rest
    pure (ref :: refs)

/-- Stores a definition for each variable. -/
def declareVariables (interface : Interface) : Action (List ContentRef) :=
  Store.transaction (saveDefinitions interface.declarations)

end Interface

/-- The name of a stored definition with a source; anything else is no variable of an interface. -/
def externalName (ref : ContentRef) : Action String := fun store =>
  if ref.kind = .definition then
    match Store.loadObject ref store with
    | (.ok (.definition name (some _)), after) => (.ok name, after)
    | (.ok (.definition _ none), after) => (.error (.creation (.notExternallyDeclared ref)), after)
    | (_, after) => (.error (.creation (.notADefinition ref)), after)
  else (.error (.creation (.notADefinition ref)), store)

end RuleTree
