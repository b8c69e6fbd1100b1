import RuleTree.Proofs.Evaluation.Blocks
import RuleTree.Proofs.Reachable
import RuleTree.Proofs.Reading.Caching

/-!
# Creation preserves meaning

Interpreting a tree that was created from a sketch gives what the sketch means by itself
(`Reachable.create_preserves_meaning`).  A block gives a null for each of its definitions before
the values of its statements.
-/

namespace RuleTree

open Step Records Creation

variable {functions : Option Library} {names : Names} {records : Records}

/-- Declared definitions and new ones are stored under their names. -/
theorem Creation.Created.named {known : Names} {tree : Sketch} {before : Records} {root : Node}
    {parts : List Sketch} (created : Created functions known tree before root names parts records) :
    Evaluation.Named names records := by
  intro name id found
  by_cases fresh : name ∈ newNames known tree
  · rcases created.defines.own name fresh with ⟨id', found', _, stored⟩
    rw [found] at found'
    cases found'
    exact ⟨none, stored⟩
  · rw [created.defines.others name fresh] at found
    rcases created.declared name id found with ⟨source, stored⟩
    exact ⟨some source, created.grown.objects stored⟩

namespace Evaluation

variable {library : Library}

/-! ## Whole sketches -/

/-- The nodes that stand for new definitions. -/
theorem defining_of_mirrors {floor : Int} {parts : List Sketch} {heads : List NodeId}
    (definitions : MirrorsAll records floor (IsDefinition records) parts heads)
    (childless : ∀ part ∈ parts, part.children = []) :
    ∀ id ∈ heads, Defining records id ∧ records.orderedChildren id = [] := by
  intro id member
  rcases definitions.part_below member .refl with ⟨part, part_mem, mirrors⟩
  rcases Sketch.mem_walkAll.mp part_mem with ⟨⟨data, children⟩, whole_mem, inside⟩
  have none_below : children = [] := childless _ whole_mem
  subst none_below
  have alone : part = ⟨data, []⟩ := by simpa [Sketch.walk, Sketch.walkAll] using inside
  subst alone
  rcases mirrors with ⟨_, ⟨node, ref, found, wraps, name, stored⟩, below⟩
  exact ⟨⟨node, ref, name, none, found, wraps, stored⟩, below⟩

variable {known : Names} {before : Records} {tree : Sketch} {root : Node} {parts : List Sketch}

/-- The children of a created block are new definitions, followed by its statements. -/
theorem children_of_created (written : ∀ part ∈ tree.walk, Written part.data)
    (created : Created functions known tree before root names parts records)
    (block : tree.isBlock = true) :
    ∃ heads ids, records.orderedChildren root.id = heads ++ ids ∧ heads.length = parts.length ∧
      (∀ id ∈ heads, Defining records id ∧ records.orderedChildren id = []) ∧
        MirrorsAll records before.lastNode (Meant names records) tree.children ids := by
  rcases created.rooted.block block with ⟨_, heads, ids, ordered, definitions, statements⟩
  have childless : ∀ part ∈ parts, part.children = [] := fun part member =>
    (created.defines.given part member).1
  refine ⟨heads, ids, ordered, definitions.length_eq,
    defining_of_mirrors definitions childless, ?_⟩
  rcases tree with ⟨data, children⟩
  exact statements.imp_walk fun part member _ described =>
    means_of_described (written part (List.mem_cons_of_mem _ member)) described

/-- What a node below a created block is: the block itself, a new definition, or the node of a part
that was checked. -/
inductive Place (functions : Option Library) (names : Names) (records : Records) (floor : Int)
    (tree : Sketch) (root id : NodeId) : Prop where
  | root : id = root → Place functions names records floor tree root id
  | definition : records.ChildOf root id → Defining records id → records.orderedChildren id = [] →
      Place functions names records floor tree root id
  | part {part : Sketch} {isRoot : Bool} : part ∈ tree.walk →
      checkNode functions isRoot (part.mapData (bindData names)) = .ok () →
        Mirrors records floor (fun data => Described functions records (bindData names data)) part
          id → Place functions names records floor tree root id

theorem place_of_created (created : Created functions known tree before root names parts records)
    (block : tree.isBlock = true) {id : NodeId}
    (path : Relation.ReflTransGen records.ChildOf root.id id) :
    Place functions names records before.lastNode tree root.id id := by
  rcases created.rooted.block block with ⟨_, heads, ids, ordered, definitions, statements⟩
  rcases Relation.ReflTransGen.cases_head path with same | ⟨child, listed, path⟩
  · exact .root same.symm
  · have member := mem_orderedChildren.mpr listed
    rw [ordered, List.mem_append] at member
    rcases member with head | member
    · rcases defining_of_mirrors definitions
        (fun part member => (created.defines.given part member).1) child head with
        ⟨defining, childless⟩
      rcases Relation.ReflTransGen.cases_head path with rfl | ⟨grandchild, below, _⟩
      · exact .definition listed defining childless
      · rw [ChildOf, ← mem_orderedChildren, childless] at below
        cases below
    · rcases statements.part_below member path with ⟨part, part_mem, mirrors⟩
      have inside : part ∈ tree.walk := by
        rcases tree with ⟨data, children⟩
        exact List.mem_cons_of_mem _ part_mem
      have bound : part.mapData (bindData names) ∈ (tree.mapData (bindData names)).walk := by
        rw [walk_mapData]
        exact List.mem_map_of_mem inside
      rcases checkNode_part created.checked _ bound with ⟨_, checked⟩
      exact .part inside checked mirrors

/-- A created block stands for its statements. -/
theorem stands_of_created (written : ∀ part ∈ tree.walk, Written part.data)
    (created : Created functions known tree before root names parts records)
    (block : tree.isBlock = true) :
    Stands records before.lastNode names tree.children root := by
  rcases children_of_created written created block with ⟨heads, ids, ordered, _, defining, meant⟩
  refine ⟨created.rooted.stored, (created.rooted.block block).1, created.rooted.isRoot,
    created.named, ?_⟩
  rw [ordered]
  exact (Listed.of_mirrors meant).behind_definitions defining

/-- Evaluating a created block evaluates its statements and puts a null for each new definition
before their values. -/
theorem alike_block [Host] (linked : Linked records) (detached : library.Detached)
    (written : ∀ part ∈ tree.walk, Written part.data)
    (created : Created functions known tree before root names parts records)
    (block : tree.isBlock = true) :
    Alike (Corresponds library names) Eq (evaluate records .direct library root)
      (Sketch.evaluateAll library tree.children >>= fun values =>
        pure (.list (List.replicate (newNames known tree).length .null ++ values))) := by
  rcases children_of_created written created block with
    ⟨heads, ids, ordered, length, defining, meant⟩
  have statements : ∀ id ∈ ids, ¬Defining records id := by
    intro id member
    rcases meant.part_below member .refl with ⟨part, _, mirrors⟩
    exact not_defining_of_mirrors mirrors
  have checked : checkAll functions
      (Sketch.mapDataAll (bindData names) tree.children) = .ok () := by
    rcases tree with ⟨data, children⟩
    exact (check_eq_ok created.checked).2
  have count : heads.length = (newNames known tree).length := by
    rw [length, ← created.defines.parts.length_eq]
  rw [← bind_pure (evaluate records .direct library root)]
  refine ((stands_of_created written created block).run linked detached checked).bind ?_
  rintro _ stated ⟨values, rfl, padded⟩
  rw [ordered] at padded
  rw [padded.eq_replicate (fun id member => (defining id member).1) statements, count]
  exact .pure rfl

/-- Evaluating the root of a created sketch does what evaluating the sketch does. -/
theorem alike_run [Host] (linked : Linked records) (detached : library.Detached)
    (written : ∀ part ∈ tree.walk, Written part.data)
    (created : Created functions .empty tree before root names parts records) :
    Alike (Corresponds library names) Eq (evaluate records .direct library root)
      (tree.run library) := by
  unfold Sketch.run
  by_cases block : tree.isBlock = true
  · rw [if_pos block, ← newNames_empty]
    exact alike_block linked detached written created block
  · have single : tree.isBlock = false := by simpa using block
    rw [if_neg block]
    have meant : Mirrors records before.lastNode (Meant names records) tree root.id :=
      (created.rooted.single single).imp_walk fun part member _ described =>
        means_of_described (written part member) described
    exact alike_whole (alike_evaluate linked created.named detached meant created.checked
      created.rooted.stored (records.listsBelow_lt_depthBound root.id))

end Evaluation

/-! ## Both ways to read a created tree -/

section Sound

variable {before : Records} {tree : Sketch} {root : Node} {parts : List Sketch}

/-- Everything that a created tree needs is stored. -/
theorem Creation.Created.supplied {known : Names}
    (written : ∀ part ∈ tree.walk, Written part.data)
    (created : Created functions known tree before root names parts records) :
    Reading.Supplied records root.id := by
  by_cases block : tree.isBlock = true
  · exact (Evaluation.stands_of_created written created block).sound.supplied
  · intro id path node ref found wraps
    have single : tree.isBlock = false := by simpa using block
    rcases (created.rooted.single single).fits_below path found wraps with
      ⟨part, part_mem, described⟩
    exact created.named.supplied (means_of_described (written part part_mem) described)

end Sound

/-- Whichever way the tree is read, an evaluation has the result and leaves the context that it
does when the tree is read node by node. -/
theorem interpret_direct [Host] {root : Node} (tidy : Tidy records)
    (sound : Reading.Sound records root) (context : Context) :
    (interpret records root context).1 = (evaluate records .direct context.library root
        ⟨Reading.start, context⟩).1 ∧
      (interpret records root context).2.1 = (evaluate records .direct context.library root
        ⟨Reading.start, context⟩).2.context := by
  rcases context with ⟨bindings, cache, library⟩
  cases cache with
  | false => exact ⟨rfl, rfl⟩
  | true => exact interpretWith_cached inseparable_eq tidy sound rfl

/-- Interpreting a created tree in a fresh context gives the value or the error that the sketch
itself means.  Each name of the sketch has a new definition of its own, and after the evaluation,
successful or not, exactly these definitions have the values of their names. -/
theorem Reachable.create_preserves_meaning [Host] {store after : Store} {functions : Option Library}
    {tree : Sketch} {root : Node} {context : Context} (reachable : Reachable store)
    (written : ∀ part ∈ tree.walk, Written part.data)
    (created : Creation.create functions tree none store = (.ok root, after))
    (fresh : context.bindings = .empty) (detached : context.library.Detached) :
    (interpret after.records root context).1 = (tree.run context.library .empty).1 ∧
      ∃ definitions : Names,
        (∀ name, name ∈ tree.variableNames ↔ ∃ id, definitions.get? name = some id) ∧
        (∀ name id, definitions.get? name = some id → store.records.lastObject < id.val ∧
          after.records.objects.get? ⟨.definition, id⟩ = some (.definition name none)) ∧
        ∀ id value, (interpret after.records root context).2.1.bindings.get? id = some value ↔
          ∃ name, definitions.get? name = some id ∧
            (tree.run context.library .empty).2.get? name = some value := by
  have tidy := tidy_create reachable.tidy created
  have plain : ∀ part ∈ tree.walk, part.get? "object_id" = none :=
    fun part member => (written part member).no_object
  rcases create_spec reachable.tidy plain created with ⟨known, names, parts, known_eq, whole⟩
  rcases known_eq rfl with rfl
  rcases named_of_defines whole.defines with ⟨known, stored⟩
  rcases interpret_direct tidy ⟨whole.rooted.stored, whole.supplied written⟩ context with
    ⟨same_result, same_context⟩
  have start : Evaluation.Corresponds context.library names ⟨Reading.start, context⟩ .empty :=
    Evaluation.corresponds_empty _ rfl fresh
  rcases Evaluation.alike_run tidy.linked detached written whole _ _ start with
    ⟨corresponds, results⟩
  refine ⟨same_result.trans (results.eq fun _ _ agree => agree), names, ?_, stored, ?_⟩
  · rw [← newNames_empty]
    exact known
  · intro id value
    rw [same_context]
    exact corresponds.values id value

/-- One assignment to a variable. -/
def oneAssignment : Sketch :=
  .block [⟨Sketch.dataOf .assignment [], [⟨Sketch.dataOf .use [("name", .str "x")], []⟩,
    ⟨Sketch.dataOf .boolean [("value", .bool true)], []⟩]⟩]

theorem create_preserves_meaning_assignment : ∃ root after,
    (∀ part ∈ oneAssignment.walk, Written part.data) ∧
      create none oneAssignment none Store.empty = (.ok root, after) ∧
        Builtin.library.Detached ∧ (interpret after.records root Context.fresh).1 =
          (oneAssignment.run Builtin.library .empty).1 := by
  have written : ∀ part ∈ oneAssignment.walk, Written part.data := by
    intro part member
    simp only [oneAssignment, Sketch.block, Sketch.walk, Sketch.walkAll, List.append_nil,
      List.cons_append, List.nil_append, List.mem_cons, List.not_mem_nil, or_false] at member
    rcases member with rfl | rfl | rfl | rfl <;> exact ⟨by decide, by decide, by decide⟩
  have created : ∃ root after, create none oneAssignment none Store.empty = (.ok root, after) :=
    ⟨_, _, by rfl⟩
  rcases created with ⟨root, after, created⟩
  have fresh : Context.fresh.bindings = .empty := rfl
  have detached : Context.fresh.library.Detached := Builtin.detached_library
  exact ⟨root, after, written, created, detached,
    (Reachable.empty.create_preserves_meaning written created fresh detached).1⟩

end RuleTree
