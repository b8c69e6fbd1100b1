import RuleTree.Content.Kind
import RuleTree.Json.Basic

/-!
# Sketches

A sketch is a tree as a document shows it, before anything is stored: each node has data, which
describe the object that it is to wrap, and children. Variables are known by name. A node whose data
name no kind of content is a block, a mere container of statements.
-/

namespace RuleTree

/-- A tree that is not stored. -/
structure Sketch where
  /-- What describes the object: its kind under `content_type` and the parts of its value. -/
  data : Fields
  children : List Sketch

namespace Sketch

/-- A container of statements. -/
def block (statements : List Sketch) : Sketch := ⟨[], statements⟩

/-- The data of an object of a kind. -/
def dataOf (kind : Kind) (entries : List (String × Json)) : Fields :=
  entries.foldl (fun data entry => Entries.insert entry.1 entry.2 data)
    [("content_type", .str kind.tag)]

/-- An entry of the data. -/
def get? (sketch : Sketch) (key : String) : Option Json := Entries.get? key sketch.data

/-- An entry of the data that is a text. -/
def getStr? (sketch : Sketch) (key : String) : Option String := (sketch.get? key).bind Json.asStr?

/-- Whether the data name no kind of content. -/
def isBlock (sketch : Sketch) : Bool := (sketch.get? "content_type").isNone

/-- The kind of content that the data name. -/
def kind? (sketch : Sketch) : Option Kind := (sketch.getStr? "content_type").bind Kind.ofTag?

mutual

/-- The node and all nodes below it, parents before children and siblings in order. -/
def walk : Sketch → List Sketch
  | ⟨data, children⟩ => ⟨data, children⟩ :: walkAll children

/-- The nodes of several trees, one tree after the other. -/
def walkAll : List Sketch → List Sketch
  | [] => []
  | sketch :: rest => walk sketch ++ walkAll rest

end

mutual

/-- Changes the data of every node. -/
def mapData (change : Fields → Fields) : Sketch → Sketch
  | ⟨data, children⟩ => ⟨change data, mapDataAll change children⟩

/-- Changes the data of every node of several trees. -/
def mapDataAll (change : Fields → Fields) : List Sketch → List Sketch
  | [] => []
  | sketch :: rest => mapData change sketch :: mapDataAll change rest

end

/-- The nodes of a tree that have a kind of content, in the order of `walk`. -/
def collect (sketch : Sketch) (kind : Kind) : List Sketch :=
  sketch.walk.filter fun node => node.kind? = some kind

end Sketch

end RuleTree
