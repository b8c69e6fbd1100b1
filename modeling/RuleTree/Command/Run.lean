import RuleTree.Block.Creation
import RuleTree.Block.Writer
import RuleTree.Command.Basic
import RuleTree.Evaluation.Interpret
import RuleTree.Function.Builtin
import RuleTree.Json.Printer
import RuleTree.Settings.Load
import RuleTree.Value.Json

/-!
# Carrying out commands

A command sees the variables of the environment and the texts of files, and gives the text that it
prints or the cause of its failure. The settings are loaded first, so that what is wrong with them
is reported before anything else. Documents are stored in memory; no database is at hand, so that
the commands that need one fail once they get to it.
-/

namespace RuleTree

/-- Why a command failed. -/
inductive CommandError where
  | engine (cause : Error)
  | settings (cause : SettingsError)
  /-- A document cannot be read. -/
  | unreadable (path : String)
  | noConnection
deriving DecidableEq

/-- The message about a command. -/
def CommandError.message : CommandError → String
  | .engine cause => cause.message
  | .settings cause => cause.message
  | .unreadable path => "Failed to read " ++ path
  | .noConnection => "Failed to connect to database"

namespace Command

open Settings (Surroundings)

/-- The text of a document. -/
def document (surroundings : Surroundings) (path : String) : Except CommandError String :=
  match surroundings.file? path with
  | some document => .ok document
  | none => .error (.unreadable path)

/-- Stores a document in an empty store. -/
def stored (document : String) : Except CommandError (Node × Store) :=
  match Creation.importDocument (some Builtin.library) document none Store.empty with
  | (.ok root, store) => .ok (root, store)
  | (.error cause, _) => .error (.engine cause)

/-- A text as one or more lines. -/
def asLines (text : String) : String := text ++ "\n"

/-- The value of a document as JSON. -/
def evaluated (settings : Settings) (document : String) : Except CommandError String := do
  let (root, store) ← stored document
  let context := { Context.fresh with cache := settings.engine.cache }
  match (interpret store.records root context).1 with
  | .ok value => .ok (asLines value.toJson.pretty)
  | .error cause => .error (.engine cause)

/-- A document as it is stored. -/
def formatted (ids : Bool) (document : String) : Except CommandError String := do
  let (root, store) ← stored document
  match (Block.build store.records .cached ids root Reading.start).1 with
  | .ok text => .ok (asLines text)
  | .error cause => .error (.engine cause)

/-- What a command that needs a database comes to. -/
def withoutDatabase (settings : Settings) : Except CommandError String :=
  match settings.databaseUrl with
  | .ok _ => .error .noConnection
  | .error cause => .error (.settings cause)

/-- Carries out a command under the settings. -/
def perform (command : Command) (settings : Settings) (surroundings : Surroundings) :
    Except CommandError String :=
  match command with
  | run file => do evaluated settings (← document surroundings file)
  | format file ids => do formatted ids (← document surroundings file)
  | importFile file => do
    let _ ← stored (← document surroundings file)
    withoutDatabase settings
  | migrate | exportTree _ | execute _ | delete _ => withoutDatabase settings
  | showSettings => settings.toToml.mapError .settings

end Command

namespace Invocation

/-- What an invocation asks of the settings. -/
def settingsRequest (invocation : Invocation) : Settings.Request :=
  ⟨invocation.settingsPath, invocation.databaseUrl, true⟩

/-- Loads the settings and carries out the command. -/
def perform (invocation : Invocation) (surroundings : Settings.Surroundings) :
    Except CommandError String := do
  let settings ← (Settings.load invocation.settingsRequest surroundings).mapError .settings
  invocation.command.perform settings surroundings

/-- The file that the command reads. -/
def document? (invocation : Invocation) : Option String :=
  match invocation.command with
  | .run file | .format file _ | .importFile file => some file
  | _ => none

/-- The paths of all files that the invocation may read. -/
def paths (invocation : Invocation) (environment : List (String × String)) : List String :=
  let settingsPath := (invocation.settingsRequest.namedPath environment).getD Settings.defaultPath
  invocation.document?.toList ++ Settings.candidates settingsPath

end Invocation

end RuleTree
