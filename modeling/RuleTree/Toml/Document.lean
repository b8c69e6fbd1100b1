import RuleTree.Toml.Scalar

/-!
# Tables in the making

While a document is read, each table remembers how it came about, because that decides what may be
added to it: the header of a table may stand only once, a table that dotted keys made grows only by
dotted keys from the same place, and a value is never extended. Adding to tables gives nothing where
this is violated. The entries stay in the order in which they came, since a table whose first entry
is under the reserved key `momentKey` is another way to write a date or a time.
-/

namespace RuleTree.Toml

/-- How a table came about. -/
inductive Origin where
  /-- It has a header of its own. -/
  | header
  /-- It is on the way to the table of a header. -/
  | onTheWay
  /-- It is on the way to the value of a dotted key. -/
  | dotted
  /-- It stands in braces, and is complete. -/
  | braces
deriving DecidableEq

/-- What stands under a key. -/
inductive Item where
  /-- A value other than an array and a table. -/
  | scalar (value : Toml)
  | array (items : List Item)
  | table (origin : Origin) (entries : List (String × Item))
  /-- The tables of a header with two brackets, the latest first. -/
  | tables (latest : List (String × Item)) (earlier : List (List (String × Item)))

/-- The entries of a table in the making. -/
abbrev Items := List (String × Item)

namespace Items

/-- Puts an item in the place of the one under the same key, or after all others. -/
def put (key : String) (item : Item) : Items → Items
  | [] => [(key, item)]
  | (other, old) :: rest =>
    if other = key then (key, item) :: rest else (other, old) :: put key item rest

/-- Adds a value under a key in the table that is reached by some keys. -/
def addValue (key : String) (value : Item) : List String → Items → Option Items
  | [], items => if (Entries.get? key items).isSome then none else some (put key value items)
  | step :: rest, items =>
    match Entries.get? step items with
    | none => (addValue key value rest []).map fun inner => put step (.table .dotted inner) items
    | some (.table .dotted inner) => (addValue key value rest inner).map fun inner =>
      put step (.table .dotted inner) items
    | some (.table .onTheWay inner) =>
      if rest.isEmpty then none
      else (addValue key value rest inner).map fun inner => put step (.table .onTheWay inner) items
    | some (.tables latest earlier) =>
      if rest.isEmpty then none
      else (addValue key value rest latest).map fun latest =>
        put step (.tables latest earlier) items
    | some _ => none

/-- Changes the table that a header names. Tables on the way to it are made where there are none. -/
def within (change : Items → Option Items) : List String → Items → Option Items
  | [], items => change items
  | step :: rest, items =>
    match Entries.get? step items with
    | none => (within change rest []).map fun inner => put step (.table .onTheWay inner) items
    | some (.table .braces _) => none
    | some (.table origin inner) => (within change rest inner).map fun inner =>
      put step (.table origin inner) items
    | some (.tables latest earlier) => (within change rest latest).map fun latest =>
      put step (.tables latest earlier) items
    | some _ => none

/-- Gives a table its header. One that was on the way to other tables comes last from then on. -/
def openTable (key : String) (items : Items) : Option Items :=
  match Entries.get? key items with
  | none => some (put key (.table .header []) items)
  | some (.table .onTheWay inner) => some (put key (.table .header inner) (Entries.erase key items))
  | some _ => none

/-- Begins the next table of a header with two brackets. -/
def openNext (key : String) (items : Items) : Option Items :=
  match Entries.get? key items with
  | none => some (put key (.tables [] []) items)
  | some (.tables latest earlier) => some (put key (.tables [] (latest :: earlier)) items)
  | some _ => none

end Items

/-! ## Complete documents -/

/-- The first key of a table that stands for the date or time under it. -/
def momentKey : String := "$__toml_private_datetime"

/-- The date or time that a text under `momentKey` says. -/
def momentIn? : Item → Option Toml
  | .scalar (.str text) => moment? generousClock text.toList
  | _ => none

mutual

/-- What an item says once the document is complete. -/
def Item.finish? : Item → Option Toml
  | .scalar value => some value
  | .array items => (finishItems? items).map array
  | .table _ entries => finishTable? entries
  | .tables latest earlier => do
    let last ← finishTable? latest
    (finishTables? earlier [last]).map array

/-- What items say one by one. -/
def finishItems? : List Item → Option (List Toml)
  | [] => some []
  | item :: rest => do
    let value ← item.finish?
    let values ← finishItems? rest
    some (value :: values)

/-- What a table says: a date or time if it begins with `momentKey`, else what its entries say. -/
def finishTable? : List (String × Item) → Option Toml
  | [] => some (table [])
  | (key, item) :: rest =>
    if key = momentKey then momentIn? item
    else do
      let value ← item.finish?
      let entries ← finishEntries? rest
      some (table (Entries.insert key value entries))

/-- What entries say, sorted by their keys. -/
def finishEntries? : List (String × Item) → Option (List (String × Toml))
  | [] => some []
  | (key, item) :: rest => do
    let value ← item.finish?
    let entries ← finishEntries? rest
    some (Entries.insert key value entries)

/-- What the tables of a list that has the latest first say, in order, before some others. -/
def finishTables? : List (List (String × Item)) → List Toml → Option (List Toml)
  | [], later => some later
  | entries :: earlier, later => do
    let value ← finishTable? entries
    finishTables? earlier (value :: later)

end

end RuleTree.Toml
