import RuleTree.Table

/-!
# TOML values

What a TOML document says. Dates and times are not computed with and are kept as their texts. The
entries of a table stand in increasing order of their keys. Where values are put together from
several documents, an array may have places that none of them filled.
-/

namespace RuleTree

/-- A TOML value. -/
inductive Toml where
  | str (value : String)
  | integer (value : Int64)
  | float (value : Float)
  | boolean (value : Bool)
  /-- A date, a time, or both. -/
  | moment (text : String)
  | array (items : List Toml)
  | table (entries : List (String × Toml))
  /-- A place that nothing was put into. -/
  | unset

namespace Toml

instance : Inhabited Toml := ⟨table []⟩

/-- The entries of a table; nothing else has entries. -/
def entries : Toml → List (String × Toml)
  | table entries => entries
  | _ => []

/-- The items of an array; nothing else has items. -/
def items : Toml → List Toml
  | array items => items
  | _ => []

end Toml

end RuleTree
