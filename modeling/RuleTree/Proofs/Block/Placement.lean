import RuleTree.Proofs.Block.Parsing
import Mathlib.Data.List.Perm.Subperm

/-!
# Which blocks are read

A block that is reached through slots and `next` is read as exactly one node, unless the way to it
leads through the `next` of a block in a slot for a value (`read_placed`).  Such a block leaves no
trace (`next_in_value_lost`).
-/

namespace RuleTree

namespace Block

open Creation

variable {root : Element}

/-- Whether a part is an assignment. -/
def isAssignment (part : Sketch) : Bool := part.kind? = some .assignment

theorem length_target (mark : Mark) :
    (Sketch.walkAll mark.target).length = if mark.kind = .assignment then 1 else 0 := by
  cases mark <;> rfl

theorem countP_target (mark : Mark) : (Sketch.walkAll mark.target).countP isAssignment = 0 := by
  cases mark with
  | assignment name =>
      have use : Sketch.kind? ⟨(Mark.use name).data, []⟩ = some .use :=
        kind?_mark (.use name) none []
      show [(⟨(Mark.use name).data, []⟩ : Sketch)].countP isAssignment = 0
      simp [isAssignment, use]
  | _ => rfl

mutual

theorem length_of_plan : ∀ {plan : Plan} {sketch : Sketch}, plan.Of root sketch →
    sketch.walk.length = plan.walk.length + sketch.walk.countP isAssignment
  | ⟨_, _⟩, ⟨data, _⟩, ⟨_, children, _, read, below⟩ => by
      rcases marked_node read with ⟨mark, same, rfl⟩
      have inside := length_of_plans below
      have known : Sketch.kind? ⟨data, mark.target ++ children⟩ = some mark.kind :=
        (same.kind?_eq _ []).trans (kind?_mark mark none [])
      have own : isAssignment ⟨data, mark.target ++ children⟩ =
          decide (mark.kind = .assignment) := by
        simp [isAssignment, known]
      rw [Sketch.walk, Plan.walk, List.length_cons, List.length_cons, List.countP_cons, own,
        Sketch.walkAll_append, List.length_append, List.countP_append, length_target,
        countP_target]
      by_cases assignment : mark.kind = .assignment
      · simp only [assignment, decide_true, if_true]
        omega
      · simp only [assignment, decide_false, if_false, Bool.false_eq_true]
        omega

/-- There is one node for each block, and one more for the variable of each assignment. -/
theorem length_of_plans : ∀ {plans : List Plan} {sketches : List Sketch},
    Plan.AllOf root plans sketches → (Sketch.walkAll sketches).length =
      (Plan.walkAll plans).length + (Sketch.walkAll sketches).countP isAssignment
  | [], _, empty => by
      cases empty
      rfl
  | _ :: _, _, ⟨_, _, same, here, others⟩ => by
      cases same
      have first := length_of_plan here
      have later := length_of_plans others
      rw [Sketch.walkAll, Plan.walkAll, List.length_append, List.length_append,
        List.countP_append]
      omega

end

end Block

open Block

/-- Each block of a document that is reached, though not through the `next` of a block in a slot for
a value, is read as exactly one node, and no other block is read.  What a block holds is right below
it, the block in its `next` comes right after it on the same level, and each level is in the order
of the document.  Beside the nodes of blocks there is just the variable of each assignment. -/
theorem read_placed {document : String} {sketches : List Sketch}
    (read : Block.read document = .ok sketches) :
    ∃ root plans, Element.read document.toList = .ok root ∧
      Layout root (fun place => ¬InValue root place) (topPlaces root) plans sketches ∧
      (Sketch.walkAll sketches).length =
        (Plan.places plans).length + (Sketch.walkAll sketches).countP isAssignment := by
  rcases Answer.bind_eq_ok.mp read with ⟨root, parsed, done⟩
  rcases exists_layout done with ⟨plans, layout⟩
  refine ⟨root, plans, Answer.mapError_eq_ok.mp parsed, layout, ?_⟩
  rw [Plan.places, List.length_map]
  exact length_of_plans layout.nodes

/-- The block of a truth value, with a name of its own and with elements after its field. -/
def Block.truth (name value : String) (after : List Element) : Element :=
  ⟨name, [("type", "logic_boolean")], "", fieldElement "BOOL" value :: after⟩

/-- The wrapper of a block that comes after another one. -/
def Block.afterwards (block : Element) : Element := ⟨"next", [], "", [block]⟩

/-- An assignment with another block after it and a shadow in its slot. -/
def Block.shaded : Element :=
  ⟨"xml", [], "", [⟨"block", [("type", "variables_set")], "",
    [fieldElement "VAR" "A", afterwards (truth "block" "FALSE" []),
      ⟨"value", [("name", "VALUE")], "", [truth "shadow" "TRUE" []]⟩]⟩]⟩

theorem Block.wellNamed_shaded : shaded.WellNamed := by
  simp only [shaded, truth, afterwards, fieldElement, Element.WellNamed, Element.AllWellNamed]
  decide

/-- Three blocks are read, and there is a fourth node for the variable. -/
theorem read_placed_shaded : ∃ root plans sketches,
    Block.read (String.ofList shaded.write) = .ok sketches ∧
      Layout root (fun place => ¬InValue root place) (topPlaces root) plans sketches ∧
        (Plan.places plans).length = 3 ∧ (Sketch.walkAll sketches).length = 4 := by
  let value (b : Bool) : Sketch := ⟨Sketch.dataOf .boolean [("value", .bool b)], []⟩
  have read : Block.read (String.ofList shaded.write) = .ok
      [⟨Sketch.dataOf .assignment [],
        [⟨Sketch.dataOf .use [("name", .str "A")], []⟩, value true]⟩, value false] :=
    (Block.read_write wellNamed_shaded).trans rfl
  rcases read_placed read with ⟨root, plans, _, layout, count⟩
  have four : 4 = (Plan.places plans).length + 1 := count
  exact ⟨root, plans, _, read, layout, by omega, rfl⟩

/-- A negation whose slot holds a truth value with another one in its `next`. -/
def Block.valueChain : Element :=
  ⟨"xml", [], "", [⟨"block", [("type", "logic_negate")], "",
    [⟨"value", [("name", "BOOL")], "",
      [truth "block" "TRUE" [afterwards (truth "block" "FALSE" [])]]⟩]⟩]⟩

theorem Block.wellNamed_valueChain : valueChain.WellNamed := by
  simp only [valueChain, truth, afterwards, fieldElement, Element.WellNamed, Element.AllWellNamed]
  decide

/-- What the negation is read as. -/
def Block.negation : Sketch :=
  ⟨Sketch.dataOf .unary [("operator", .str "not")],
    [⟨Sketch.dataOf .boolean [("value", .bool true)], []⟩]⟩

/-- The block in the `next` of a block in a slot for a value is reached through slots and `next`,
but there is no node for it. -/
theorem next_in_value_lost :
    Block.read (String.ofList valueChain.write) = .ok [negation] ∧
      Reached valueChain (fun _ => True) (topPlaces valueChain) [0, 0, 0, 1, 0] ∧
      ¬∃ plans, Layout valueChain (fun _ => True) (topPlaces valueChain) plans [negation] := by
  have read : Block.read (String.ofList valueChain.write) = .ok [negation] :=
    (Block.read_write wellNamed_valueChain).trans rfl
  have top : Reached valueChain (fun _ => True) (topPlaces valueChain) [0] :=
    .start (mem_topPlaces.mpr ⟨0, _, rfl, rfl, rfl⟩)
  have inner : Reached valueChain (fun _ => True) (topPlaces valueChain) [0, 0, 0] :=
    .held top (@Holds.intro valueChain [0] _ _ 0 0 rfl rfl (.inl rfl) rfl)
  have after : Reached valueChain (fun _ => True) (topPlaces valueChain) [0, 0, 0, 1, 0] :=
    .next inner trivial (@Precedes.intro valueChain [0, 0, 0] _ _ 1 0 rfl rfl rfl rfl)
  refine ⟨read, after, ?_⟩
  rintro ⟨plans, layout⟩
  have blocks : [[0], [0, 0, 0], [0, 0, 0, 1, 0]] ⊆ Plan.places plans := by
    simp [layout.reached, top, inner, after]
  have three : 3 ≤ (Plan.places plans).length :=
    (List.subperm_of_subset (by decide) blocks).length_le
  have two : 2 = (Plan.walkAll plans).length + _ := length_of_plans layout.nodes
  rw [Plan.places, List.length_map] at three
  omega

end RuleTree
