import RuleTree.Json.Basic
import RuleTree.Toml.Writer

/-!
# Settings

What can be configured: how to reach a database, how trees are read and written, and what is logged.
Settings are shown as a TOML document.
-/

namespace RuleTree

/-- How to reach the database. -/
structure DatabaseSettings where
  /-- The address, which only some commands need. -/
  url : Option String
  maxConnections : Nat
  minConnections : Nat
  acquireTimeoutSecs : Nat
  idleTimeoutSecs : Nat
deriving DecidableEq

/-- How trees are read and written. -/
structure EngineSettings where
  /-- Whether an evaluation reads trees through a snapshot. -/
  cache : Bool
  /-- Whether documents show the numbers of the nodes. -/
  blockIds : Bool
deriving DecidableEq

/-- What can be configured. -/
structure Settings where
  database : DatabaseSettings
  engine : EngineSettings
  /-- Which messages are logged. -/
  logFilter : String
deriving DecidableEq

/-- Why there are no settings, or why they do not do. -/
inductive SettingsError where
  /-- A file is missing, or is no TOML document. -/
  | cannotLoad
  /-- A setting has a value of the wrong type or out of its range. -/
  | invalid
  | tooFewConnections (least most : Nat)
  | noUrl
  /-- A number is too large for a TOML document. -/
  | cannotRender
deriving DecidableEq

/-- The message about settings. -/
def SettingsError.message : SettingsError → String
  | .cannotLoad => "Failed to load configuration"
  | .invalid => "Invalid configuration"
  | .tooFewConnections least most =>
    "database.min_connections (" ++ String.ofList (Digits.writeNat least)
      ++ ") exceeds database.max_connections (" ++ String.ofList (Digits.writeNat most) ++ ")"
  | .noUrl =>
    "no database URL configured (use --database-url, BLOCKFLOW_DATABASE_URL or [database] url)"
  | .cannotRender => "Failed to render configuration"

namespace Settings

/-- The settings that hold where nothing else is said. -/
def initial : Settings where
  database := ⟨none, 10, 1, 30, 600⟩
  engine := ⟨true, true⟩
  logFilter := "info"

/-- The address of the database. -/
def databaseUrl (settings : Settings) : Except SettingsError String :=
  match settings.database.url with
  | some url => .ok url
  | none => .error .noUrl

/-- The most connections are at least the least. -/
def checkConnections (settings : Settings) : Except SettingsError Settings :=
  if settings.database.maxConnections < settings.database.minConnections then
    .error (.tooFewConnections settings.database.minConnections settings.database.maxConnections)
  else .ok settings

/-! ## Rendering -/

/-- One line of a document. -/
def line (key : String) (value : List Char) : List Char :=
  key.toList ++ " = ".toList ++ value ++ ['\n']

/-- A text as a value. -/
def textValue (text : String) : List Char := Toml.writeText text.toList

/-- A truth value as a value. -/
def flagValue (flag : Bool) : List Char := (if flag then "true" else "false").toList

/-- The settings as a TOML document. -/
def document (settings : Settings) : List Char :=
  let database := settings.database
  "[database]\n".toList
    ++ (database.url.map fun url => line "url" (textValue url)).getD []
    ++ line "max_connections" (Digits.writeNat database.maxConnections)
    ++ line "min_connections" (Digits.writeNat database.minConnections)
    ++ line "acquire_timeout_secs" (Digits.writeNat database.acquireTimeoutSecs)
    ++ line "idle_timeout_secs" (Digits.writeNat database.idleTimeoutSecs)
    ++ "\n[engine]\n".toList
    ++ line "cache" (flagValue settings.engine.cache)
    ++ line "block_ids" (flagValue settings.engine.blockIds)
    ++ "\n[log]\n".toList
    ++ line "filter" (textValue settings.logFilter)

/-- The settings as a TOML document, whose integers are signed 64-bit words. -/
def toToml (settings : Settings) : Except SettingsError String :=
  if settings.database.acquireTimeoutSecs < 0x8000000000000000 ∧
      settings.database.idleTimeoutSecs < 0x8000000000000000 then
    .ok (String.ofList settings.document)
  else .error .cannotRender

/-- The settings as JSON. -/
def toJson (settings : Settings) : Json :=
  let database := settings.database
  Json.object
    [("database", Json.object
      [("url", (database.url.map Json.str).getD .null),
        ("max_connections", .int database.maxConnections),
        ("min_connections", .int database.minConnections),
        ("acquire_timeout_secs", .int database.acquireTimeoutSecs),
        ("idle_timeout_secs", .int database.idleTimeoutSecs)]),
      ("engine", Json.object
        [("cache", .bool settings.engine.cache), ("block_ids", .bool settings.engine.blockIds)]),
      ("log", Json.object [("filter", .str settings.logFilter)])]

end Settings

end RuleTree
