import RuleTree.Number.FloatText
import RuleTree.Number.Word
import RuleTree.Settings.Basic
import RuleTree.Settings.Layers
import RuleTree.Toml.Reader

/-!
# Loading settings

The layers are, from the first to the last: the initial settings, a file, the variables of the
environment, and the address of the database where it is given by itself. Values are converted to
the type that a setting has, so that a text may stand for a number or a truth value.
-/

namespace RuleTree.Settings

/-! ## Conversions -/

/-- A truth value: a truth value, a number, which is false if it is zero, or one of a few words. -/
def flag? : Toml → Option Bool
  | .boolean b => some b
  | .integer n => some (n != 0)
  | .float x => some (x != 0.0)
  | .str s =>
    match Text.lower s with
    | "1" | "true" | "on" | "yes" => some true
    | "0" | "false" | "off" | "no" => some false
    | _ => none
  | _ => none

/-- A natural number in decimal with an optional plus sign. -/
def readCount? : List Char → Option Nat
  | '+' :: digits => Digits.readNat? digits
  | digits => Digits.readNat? digits

/-- A natural number of 64 bits. A float is rounded, halves away from zero, and kept in range. -/
def count? : Toml → Option Nat
  | .integer n => if 0 ≤ n.toInt then some n.toInt.toNat else none
  | .boolean b => some b.toNat
  | .float x => some x.round.toUInt64.toNat
  | .str s =>
    match Text.lower s with
    | "true" | "on" | "yes" => some 1
    | "false" | "off" | "no" => some 0
    | _ => (readCount? s.toList).filter (· < 0x10000000000000000)
  | _ => none

/-- A natural number of 32 bits. -/
def shortCount? (value : Toml) : Option Nat := (count? value).filter (· < 0x100000000)

/-- Floats in texts have no exponent, and no point if they are whole. -/
def plainText (x : Float) : List Char :=
  let style : FloatStyle := ⟨-400, 400, false, .away⟩
  let text := style.write x
  if ['.', '0'].isSuffixOf text then text.take (text.length - 2) else text

/-- A text, or the text of a number, of a truth value, or of a date or time. -/
def text? : Toml → Option String
  | .str s | .moment s => some s
  | .boolean b => some (if b then "true" else "false")
  | .integer n => some (String.ofList (Digits.writeInt n.toInt))
  | .float x => some (String.ofList (plainText x))
  | _ => none

/-- The values of the fields of a section, which is a table or an array of at least these fields. -/
def fields? (names : List String) : Toml → Option (List (Option Toml))
  | .table entries => some (names.map fun name => Entries.get? name entries)
  | .array items =>
    if names.length ≤ items.length then some ((items.take names.length).map some) else none
  | _ => none

/-- The settings of the database. -/
def database? (table : Toml) : Option DatabaseSettings := do
  let names := ["url", "max_connections", "min_connections", "acquire_timeout_secs",
    "idle_timeout_secs"]
  match ← fields? names table with
  | [url, some most, some least, some acquire, some idle] =>
    let url ←
      match url with
      | none | some .unset => some none
      | some url => (text? url).map some
    some ⟨url, ← shortCount? most, ← shortCount? least, ← count? acquire, ← count? idle⟩
  | _ => none

/-- The settings of the engine. -/
def engine? (table : Toml) : Option EngineSettings := do
  match ← fields? ["cache", "block_ids"] table with
  | [some cache, some ids] => some ⟨← flag? cache, ← flag? ids⟩
  | _ => none

/-- The setting of the log. -/
def logFilter? (table : Toml) : Option String := do
  match ← fields? ["filter"] table with
  | [some filter] => text? filter
  | _ => none

/-- The settings that all layers together give. -/
def ofEntries? (entries : List (String × Toml)) : Option Settings := do
  some ⟨← database? (← Entries.get? "database" entries),
    ← engine? (← Entries.get? "engine" entries),
    ← logFilter? (← Entries.get? "log" entries)⟩

/-! ## Layers -/

/-- A natural number as a value; those of the initial settings are all small. -/
def countEntry (n : Nat) : Toml := .integer (Int64.ofNat n)

/-- The initial settings as a layer. -/
def initialLayer : List (String × Toml) :=
  let database := initial.database
  [("database.max_connections", countEntry database.maxConnections),
    ("database.min_connections", countEntry database.minConnections),
    ("database.acquire_timeout_secs", countEntry database.acquireTimeoutSecs),
    ("database.idle_timeout_secs", countEntry database.idleTimeoutSecs),
    ("engine.cache", .boolean initial.engine.cache),
    ("engine.block_ids", .boolean initial.engine.blockIds),
    ("log.filter", .str initial.logFilter)]

/-- What settings can be loaded from: the variables of the environment, and the texts of files. -/
structure Surroundings where
  environment : List (String × String)
  file? : String → Option String

/-- What whoever asks for settings says about them. -/
structure Request where
  /-- The file to read. -/
  path : Option String
  /-- The address of the database. -/
  databaseUrl : Option String
  /-- Whether the variables of the environment count. -/
  useVariables : Bool

/-- The file that is read if it is there and no other file is named. -/
def defaultPath : String := "blockflow.toml"

/-- The variable that names the file to read. -/
def pathVariable : String := "BLOCKFLOW_CONFIG_PATH"

/-- The variable that holds the address of the database. -/
def urlVariable : String := "BLOCKFLOW_DATABASE_URL"

/-- The end of the names of TOML files. -/
def tomlEnding : String := ".toml"

/-- Whether a path ends in the name of a TOML file. -/
def namesToml (path : String) : Bool :=
  let file := (path.toList.reverse.takeWhile (· ≠ '/')).reverse
  tomlEnding.toList.isSuffixOf file && tomlEnding.length < file.length

/-- The paths at which a file is looked for. -/
def candidates (path : String) : List String := [path, path ++ tomlEnding]

/-- The document at the first of the candidates for a path that is there; it has to be a TOML file
by its name. -/
def document? (file? : String → Option String) (path : String) : Option String := do
  let found ← (candidates path).find? fun candidate => (file? candidate).isSome
  if namesToml found then file? found else none

/-- The layer of a document. -/
def ofDocument (document : String) : Except SettingsError (List (String × Toml)) :=
  match Toml.read? document with
  | some entries => .ok entries
  | none => .error .cannotLoad

/-- The layer of the file that is named, or of the default one if that is there. -/
def fileLayer (file? : String → Option String) :
    Option String → Except SettingsError (List (String × Toml))
  | some path =>
    match document? file? path with
    | some document => ofDocument document
    | none => .error .cannotLoad
  | none =>
    match document? file? defaultPath with
    | some document => ofDocument document
    | none => .ok []

/-- The layer of the address of the database. -/
def urlLayer (url : Option String) : List (String × Toml) :=
  (url.map fun url => ("database.url", Toml.str url)).toList

/-- The path of the file that a request or the environment names. -/
def Request.namedPath (request : Request) (environment : List (String × String)) : Option String :=
  request.path.or (environment.lookup pathVariable)

/-- Loads the settings. -/
def load (request : Request) (surroundings : Surroundings) : Except SettingsError Settings := do
  let environment := if request.useVariables then surroundings.environment else []
  let file ← fileLayer surroundings.file? (request.namedPath environment)
  let layers := [initialLayer, file, Layers.ofVariables environment,
    urlLayer (environment.lookup urlVariable), urlLayer request.databaseUrl]
  match ofEntries? (layers.foldl Layers.overlay (.table [])).entries with
  | some settings => settings.checkConnections
  | none => .error .invalid

end RuleTree.Settings
