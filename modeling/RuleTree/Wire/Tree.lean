import RuleTree.Block.Sketch
import RuleTree.Tree.Node
import RuleTree.Wire.Content

/-!
# The stored formats of nodes and sketches

A node is an object with its number, its parent, its position and the address of its content; a
sketch is an object with data and children.
-/

namespace RuleTree.Wire

instance : Wire NodeId where
  encode id := .int id.val
  decode? json := json.asInt?.map NodeId.mk

instance : Wire ObjectId where
  encode id := .int id.val
  decode? json := json.asInt?.map ObjectId.mk

instance : Wire ContentRef where
  encode ref := Json.object [("content_type", encode ref.kind), ("object_id", encode ref.id)]
  decode? json := do
    let (kind, id) ← parts? "content_type" "object_id" decode? decode? json
    some ⟨kind, id⟩

/-- A position is an unsigned 32-bit integer. -/
def readPosition? : Json → Option Nat
  | .int n => if 0 ≤ n ∧ n < 0x100000000 then some n.toNat else none
  | _ => none

instance : Wire Node where
  encode node :=
    Json.object [("id", encode node.id), ("parent", orNull encode node.parent),
      ("position", .int node.position), ("content", orNull encode node.content)]
  decode? json := do
    match ← fields? ["id", "parent", "position", "content"] 4 json with
    | [some id, parent, some position, content] =>
      some ⟨← decode? id, ← optional decode? parent, ← readPosition? position,
        ← optional decode? content⟩
    | _ => none

mutual

/-- Writes a sketch. -/
def writeSketch : Sketch → Json
  | ⟨data, children⟩ =>
    Json.object [("data", .obj data), ("children", .arr (writeSketches children))]

/-- Writes sketches one by one. -/
def writeSketches : List Sketch → List Json
  | [] => []
  | sketch :: rest => writeSketch sketch :: writeSketches rest

end

/-- The data of a sketch. -/
def readData? : Json → Option Fields
  | .obj fields => some fields
  | _ => none

mutual

/-- Reads a sketch from an object or from an array of data and children. -/
def readSketch? : Json → Option Sketch
  | .obj fields => do
    let data ← readData? (← Entries.get? "data" fields)
    let children ← readChildrenIn? fields
    some ⟨data, children⟩
  | .arr [data, .arr children] => do
    let data ← readData? data
    let children ← readSketches? children
    some ⟨data, children⟩
  | _ => none

/-- Reads the children of a sketch from the fields of an object. -/
def readChildrenIn? : List (String × Json) → Option (List Sketch)
  | [] => none
  | (name, .arr items) :: rest =>
    if name = "children" then readSketches? items else readChildrenIn? rest
  | (name, _) :: rest => if name = "children" then none else readChildrenIn? rest

/-- Reads sketches one by one. -/
def readSketches? : List Json → Option (List Sketch)
  | [] => some []
  | json :: rest => do
    let sketch ← readSketch? json
    let sketches ← readSketches? rest
    some (sketch :: sketches)

end

instance : Wire Sketch where
  encode := writeSketch
  decode? := readSketch?

end RuleTree.Wire
