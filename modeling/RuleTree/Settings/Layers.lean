import RuleTree.Number.Digits
import RuleTree.Number.Word
import RuleTree.Text.Case
import RuleTree.Text.Split
import RuleTree.Toml.Basic
import RuleTree.Toml.Token

/-!
# Layers of settings

Settings come in layers, each of which is laid over the ones before. Tables are merged key by key,
and any other value takes the place of what was there. Case does not count in keys. A layer may
address the value at the end of a path, which leads through entries of tables and items of arrays,
and what stands in its way is replaced by a table or an array.
-/

namespace RuleTree.Layers

/-! ## Paths -/

/-- A step of a path. -/
inductive Step where
  /-- To an entry of a table. -/
  | key (name : String)
  /-- To an item of an array; a negative number counts from the end. -/
  | item (number : Int)
deriving DecidableEq

/-- The characters of keys in paths. -/
def isStepChar (c : Char) : Bool := c.isAlphanum || c == ' ' || c == '_' || c == '-'

/-- The step that follows an opening bracket: a number, with blanks around it, and a bracket. -/
def itemStep? (text : List Char) : Option Step :=
  match text.reverse with
  | ']' :: inside =>
    match (inside.dropWhile Toml.isSpace).reverse.dropWhile Toml.isSpace with
    | '+' :: _ => none
    | number => do
      let word ← Word.ofInt? (← Digits.readInt? number)
      some (.item word.toInt)
  | _ => none

/-- The steps of a part of a path: a key and any number of items. -/
def steps? (part : List Char) : Option (List Step) :=
  match Text.splitAt '[' part with
  | name :: items =>
    if !name.isEmpty && name.all isStepChar then
      (items.mapM itemStep?).map (.key (String.ofList name) :: ·)
    else none
  | [] => none

/-- The path that a key means: its parts between dots, or the whole key if some part is not one. -/
def path (key : String) : List Step :=
  match (Text.splitAt '.' key.toList).mapM steps? with
  | some steps => steps.flatten
  | none => [.key key]

/-! ## Values over values -/

mutual

/-- Lays a value over what stands under a key. -/
def assign (entries : List (String × Toml)) (key : String) : Toml → List (String × Toml)
  | .table incoming =>
    let key := Text.lower key
    Entries.insert key (merge ((Entries.get? key entries).getD (.table [])) incoming) entries
  | value => Entries.insert (Text.lower key) value entries

/-- Lays the entries of a table over a value. -/
def merge (target : Toml) : List (String × Toml) → Toml
  | [] => target
  | (key, value) :: rest => merge (.table (assign target.entries key value)) rest

end

/-- Changes an item of an array, which grows by unset places until there is such an item. -/
def changeItem (change : Toml → Toml) (number : Int) (items : List Toml) : List Toml :=
  if 0 ≤ number then
    let index := number.toNat
    (items ++ List.replicate (index + 1 - items.length) Toml.unset).modify index change
  else
    let missing := List.replicate (number.natAbs - items.length) Toml.unset
    (missing ++ items).modify (items.length - number.natAbs) change

/-- Lays a value over what stands at the end of a path. -/
def assignAt (value : Toml) : List Step → Toml → Toml
  | [], _ => value
  | [.key name], target => .table (assign target.entries name value)
  | .key name :: rest, target =>
    let key := Text.lower name
    let inner := (Entries.get? key target.entries).getD .unset
    .table (Entries.insert key (assignAt value rest inner) target.entries)
  | .item number :: rest, target =>
    .array (changeItem (assignAt value rest) number target.items)

/-- Lays a layer, given by keys that mean paths, over the ones before. -/
def overlay (settings : Toml) (layer : List (String × Toml)) : Toml :=
  layer.foldl (fun settings (key, value) => assignAt value (path key) settings) settings

/-! ## Variables of the environment -/

/-- The beginning of the names of the variables that are settings. -/
def variableStart : String := "blockflow__"

/-- Two underscores between the parts of a name become a dot. -/
def dotted : List Char → List Char
  | '_' :: '_' :: rest => '.' :: dotted rest
  | c :: rest => c :: dotted rest
  | [] => []

/-- The key that the name of a variable means, if it is a setting. Case does not count. -/
def variableKey? (name : String) : Option String :=
  let lowered := (Text.lower name).toList
  if variableStart.toList.isPrefixOf lowered then
    some (String.ofList (dotted (lowered.drop variableStart.length)))
  else none

/-- The layer of the variables of an environment. -/
def ofVariables (environment : List (String × String)) : List (String × Toml) :=
  environment.filterMap fun (name, value) => (variableKey? name).map fun key => (key, .str value)

end RuleTree.Layers
