import RuleTree.Identity
import RuleTree.Number.Word

/-!
# Command lines

A command line names a command with its operands. The options for the settings may stand before and
after the command; if both places give one, the later place counts. An option stands at most once in
each place, and after two hyphens by themselves nothing is an option any more.
-/

namespace RuleTree

/-- What is to be done. -/
inductive Command where
  /-- Evaluate a document. -/
  | run (file : String)
  /-- Write a document as it is stored, with or without the numbers of the nodes. -/
  | format (file : String) (ids : Bool)
  /-- Set up the database. -/
  | migrate
  /-- Store a document in the database. -/
  | importFile (file : String)
  /-- Write a stored tree as a document. -/
  | exportTree (root : NodeId)
  /-- Evaluate a stored tree. -/
  | execute (root : NodeId)
  /-- Delete a stored tree. -/
  | delete (root : NodeId)
  /-- Show the settings. -/
  | showSettings
deriving DecidableEq

/-- A command with the options for the settings. -/
structure Invocation where
  /-- The file with the settings. -/
  settingsPath : Option String
  /-- The address of the database. -/
  databaseUrl : Option String
  command : Command
deriving DecidableEq

namespace Command

/-! ## Words -/

/-- The options that were given in one place. -/
structure Options where
  settingsPath : Option String
  databaseUrl : Option String
  ids : Bool

/-- No options. -/
def Options.none : Options := ⟨.none, .none, false⟩

/-- The options of a place and, where it has none, those of an earlier place. -/
def Options.over (later earlier : Options) : Options :=
  ⟨later.settingsPath.or earlier.settingsPath, later.databaseUrl.or earlier.databaseUrl, later.ids⟩

/-- How the option for the file with the settings is written. -/
def settingsOption : String := "--config"

/-- How the option for the address of the database is written. -/
def urlOption : String := "--database-url"

/-- How the option for the numbers of the nodes is written. -/
def idsOption : String := "--ids"

/-- Whether a word looks like an option. A single hyphen does not. -/
def looksLikeOption (word : String) : Bool := word.startsWith "-" && word != "-"

/-- Gives the option for the file with the settings, which has to be named. -/
def Options.withSettings (options : Options) (path : String) : Option Options :=
  if options.settingsPath.isSome || path.isEmpty then .none
  else some { options with settingsPath := some path }

/-- Gives the option for the address of the database. -/
def Options.withUrl (options : Options) (url : String) : Option Options :=
  if options.databaseUrl.isSome then .none else some { options with databaseUrl := some url }

/-- Gives the option for the numbers of the nodes. -/
def Options.withIds (options : Options) : Option Options :=
  if options.ids then .none else some { options with ids := true }

/-- The value of an option that is written in the same word, after an equals sign. -/
def valueIn? (option word : String) : Option String :=
  if (option ++ "=").toList.isPrefixOf word.toList then
    some (String.ofList (word.toList.drop (option.length + 1)))
  else .none

/-- The option, without a value in the next word, that a word is. -/
def Options.withWord (options : Options) (allowIds : Bool) (word : String) : Option Options :=
  match valueIn? settingsOption word, valueIn? urlOption word with
  | some path, _ => options.withSettings path
  | _, some url => options.withUrl url
  | _, _ => if word = idsOption && allowIds then options.withIds else .none

/-! ## Places -/

/-- What stands before the command: options, and then the name of the command with the words after
it. -/
def leading (options : Options) : List String → Option (Options × String × List String)
  | [] => .none
  | word :: rest =>
    if word = settingsOption ∨ word = urlOption then
      match rest with
      | [] => .none
      | value :: rest =>
        if looksLikeOption value then .none
        else if word = settingsOption then do leading (← options.withSettings value) rest
        else do leading (← options.withUrl value) rest
    else if looksLikeOption word then do leading (← options.withWord false word) rest
    else some (options, word, rest)

/-- What stands after the command: options and operands. -/
def trailing (allowIds : Bool) (options : Options) : List String → Option (Options × List String)
  | [] => some (options, [])
  | word :: rest =>
    if word = "--" then some (options, rest)
    else if word = settingsOption ∨ word = urlOption then
      match rest with
      | [] => .none
      | value :: rest =>
        if looksLikeOption value then .none
        else if word = settingsOption then do trailing allowIds (← options.withSettings value) rest
        else do trailing allowIds (← options.withUrl value) rest
    else if looksLikeOption word then do
      trailing allowIds (← options.withWord allowIds word) rest
    else do
      let (options, operands) ← trailing allowIds options rest
      some (options, word :: operands)

/-! ## Commands -/

/-- The number of a root. -/
def root? (word : String) : Option NodeId :=
  ((Digits.readInt? word.toList).bind Word.ofInt?).map fun n => ⟨n.toInt⟩

/-- A command that takes the path of a file, which is not empty. -/
def withFile (command : String → Command) : List String → Option Command
  | [file] => if file.isEmpty then .none else some (command file)
  | _ => .none

/-- A command that takes the number of a root. -/
def withRoot (command : NodeId → Command) : List String → Option Command
  | [word] => (root? word).map command
  | _ => .none

/-- A command that takes no operands. -/
def alone (command : Command) : List String → Option Command
  | [] => some command
  | _ => .none

/-- The name of the command that has an option of its own. -/
def formatName : String := "fmt"

/-- The command with a name, its own option and its operands. -/
def named? (name : String) (ids : Bool) (operands : List String) : Option Command :=
  match name with
  | "run" => withFile run operands
  | "fmt" => withFile (format · ids) operands
  | "migrate" => alone migrate operands
  | "import" => withFile importFile operands
  | "export" => withRoot exportTree operands
  | "exec" => withRoot execute operands
  | "delete" => withRoot delete operands
  | "config" => alone showSettings operands
  | _ => .none

end Command

/-- The command that the words of a command line give, without the name of the program. -/
def Invocation.ofWords? (words : List String) : Option Invocation := do
  let (before, name, rest) ← Command.leading .none words
  let (after, operands) ← Command.trailing (name = Command.formatName) .none rest
  let options := after.over before
  some ⟨options.settingsPath, options.databaseUrl, ← Command.named? name options.ids operands⟩

end RuleTree
