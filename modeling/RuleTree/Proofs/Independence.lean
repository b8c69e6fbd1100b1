import RuleTree.Proofs.Reachable
import RuleTree.Proofs.Tree.Isomorphism
import Mathlib

/-!
# Copies are independent of their originals

Where everything that nodes and variables refer to is stored, each stored tree can be copied, and
the copy evaluates like the original: from bindings in which the copied definitions have the values
of the original ones it gives the same value or error, and it leaves such bindings behind
(`Reachable.cloneTree_independent`).
-/

namespace RuleTree

open Step Records RuleTree.Tree

namespace Records

variable {before after records : Records} {root : NodeId} {copy : Node} {image : NodeId → NodeId}
  {rename : ObjectId → ObjectId}

theorem Wraps.unique {id : NodeId} {ref other : ContentRef} (wraps : records.Wraps id ref)
    (wraps' : records.Wraps id other) : ref = other := by
  rcases wraps with ⟨node, found, content⟩
  rcases wraps' with ⟨node', found', content'⟩
  rw [found] at found'
  cases found'
  exact Option.some.inj (content.symm.trans content')

/-- What a variable of the tree names is stored, and it is a definition. -/
theorem Names.stored (complete : Complete records) (linked : Linked records)
    {definition : ObjectId} (named : records.Names root definition) :
    ∃ name source, records.objects.get? ⟨.definition, definition⟩ =
      some (.definition name source) := by
  rcases named with ⟨use, _, found⟩
  rcases complete.definitions found with ⟨content, stored⟩
  have kind := (linked.addressed stored).2
  cases content with
  | definition name source => exact ⟨name, source, stored⟩
  | _ => cases kind

/-- A node of a tree that wraps nothing is the root of the tree, and it has no parent. -/
theorem Linked.bare (linked : Linked records) {id : NodeId} {node : Node}
    (within : records.Within root id) (found : records.nodes.get? id = some node)
    (none : node.content = none) : id = root ∧ node.isRoot = true := by
  have top : node.parent = Option.none := by
    cases above : node.parent with
    | none => rfl
    | some parent =>
        rcases linked.wrapping found above with ⟨ref, content⟩
        rw [none] at content
        cases content
  refine ⟨?_, by simp [Node.isRoot, top]⟩
  rcases Relation.reflTransGen_iff_eq_or_transGen.mp within with same | under
  · exact same
  · rcases linked.under_stored under with ⟨node', parent, found', above⟩
    rw [found] at found'
    cases found'
    rw [top] at above
    cases above

namespace Cloned

variable (cloned : Cloned before after root copy image rename)

include cloned

theorem within {id : NodeId} (within : before.Within root id) :
    after.Within copy.id (image id) :=
  cloned.within_iff.mpr ⟨id, within, rfl⟩

/-- The copy of a definition is new, and it is that of no other definition. -/
theorem renamed_eq {definition other : ObjectId}
    (referenced : before.Referenced root ⟨.definition, definition⟩)
    (stored : ∃ content, before.objects.get? ⟨.definition, other⟩ = some content)
    (same : rename definition = rename other) : definition = other := by
  rcases cloned.renamed referenced with ⟨id, inside, wraps, copied⟩
  by_cases referenced' : before.Referenced root ⟨.definition, other⟩
  · rcases cloned.renamed referenced' with ⟨id', inside', wraps', copied'⟩
    rw [← same] at copied'
    have images := cloned.unshared (cloned.within inside) (cloned.within inside') copied copied'
    rcases cloned.injective inside inside' images with rfl
    exact congrArg ContentRef.id (wraps.unique wraps')
  · rcases copied with ⟨node, found, content⟩
    have absent := cloned.new_objects ⟨_, node, cloned.within inside, found, content⟩
    rcases stored with ⟨object, stored⟩
    rw [same, cloned.kept referenced', stored] at absent
    cases absent

/-- A copied definition equals the original, and any other definition is still there. -/
theorem definition_stored {definition : ObjectId} {name : String} {source : Option Source}
    (stored : before.objects.get? ⟨.definition, definition⟩ = some (.definition name source)) :
    after.objects.get? ⟨.definition, rename definition⟩ = some (.definition name source) := by
  by_cases referenced : before.Referenced root ⟨.definition, definition⟩
  · rcases cloned.renamed referenced with ⟨id, inside, wraps, copied⟩
    rcases cloned.objects inside wraps with ⟨ref, content, copied', _, found, equal⟩
    rw [stored] at found
    cases found
    rw [copied.unique copied']
    exact equal
  · rw [cloned.kept referenced]
    exact cloned.old_objects stored

/-- The copy is an image of the tree. -/
theorem pictured (complete : Complete before) (linked : Linked before) :
    Pictured before after root image rename where
  nodes {id node} within found := by
    cases wraps : node.content with
    | none =>
        rcases cloned.bare within found wraps with ⟨node', found', wraps'⟩
        rcases linked.bare within found wraps with ⟨rfl, is_root⟩
        have stored := cloned.root_stored
        rw [← cloned.root_image, found'] at stored
        cases stored
        exact ⟨copy, found', .block wraps wraps' is_root (by simp [Node.isRoot, cloned.is_root.1])⟩
    | some ref =>
        rcases cloned.objects within ⟨node, found, wraps⟩ with
          ⟨ref', content, ⟨node', found', wraps'⟩, _, stored, stored'⟩
        exact ⟨node', found', .object wraps wraps' stored stored'⟩
  children := cloned.children
  definitions named := by
    rcases named.stored complete linked with ⟨name, source, stored⟩
    exact ⟨name, source, source, stored, cloned.definition_stored stored⟩
  injective {definition other} named named' same := by
    rcases named.stored complete linked with ⟨_, _, stored⟩
    rcases named'.stored complete linked with ⟨_, _, stored'⟩
    by_cases referenced : before.Referenced root ⟨.definition, definition⟩
    · exact cloned.renamed_eq referenced ⟨_, stored'⟩ same
    by_cases referenced' : before.Referenced root ⟨.definition, other⟩
    · exact (cloned.renamed_eq referenced' ⟨_, stored⟩ same.symm).symm
    · rw [cloned.kept referenced, cloned.kept referenced'] at same
      exact same

/-- The tree stays its own image. -/
theorem unchanged (complete : Complete before) (tidy : Tidy before) {node : Node}
    (stored : before.nodes.get? root = some node) : Pictured before after root id id where
  nodes {id node} within found := by
    refine ⟨node, cloned.old_nodes found, ?_⟩
    cases wraps : node.content with
    | none =>
        have is_root := (tidy.linked.bare within found wraps).2
        exact .block wraps wraps is_root is_root
    | some ref =>
        rcases complete.contents found wraps with ⟨content, object⟩
        refine .object wraps wraps object ?_
        rw [content.rename_id]
        exact cloned.old_objects object
  children {id} within := by
    rcases tidy.linked.within_stored ⟨node, stored⟩ within with ⟨node, found⟩
    rw [List.map_id]
    apply (tidy.contiguous id).orderedChildren_congr (cloned.old_children found)
    intro child member
    rcases tidy.linked.owned member with ⟨below, found, _⟩
    simp [position?, found, cloned.old_nodes found]
  definitions named := by
    rcases named.stored complete tidy.linked with ⟨name, source, found⟩
    exact ⟨name, source, source, found, cloned.old_objects found⟩
  injective _ _ same := same

end Cloned

end Records

variable {store after : Store}

/-- A copy adds nothing that refers to something missing. -/
theorem Complete.cloneTree {node copy : Node} (complete : Complete store.records)
    (linked : Linked store.records) (done : Tree.cloneTree node store = (.ok copy, after)) :
    Complete after.records := by
  rcases cloneTree_spec linked done with ⟨root, rest, copies, made, middle, passes⟩
  have intact := complete.intact linked
  apply Intact.complete
  apply intact.builds linked (passes.builds linked)
  intro use definition found
  exact passes.named linked intact found

/-- Every stored tree can be copied.  The copy is a new tree of the same shape around copies of the
objects, and nothing that was stored changes.  From bindings that agree up to the definitions that
were copied, the tree and its copy have the same value or fail in the same way, and the bindings
that they leave agree in the same way. -/
theorem Reachable.cloneTree_independent [Host] (reachable : Reachable store)
    (complete : Complete store.records) {node : Node}
    (stored : store.records.nodes.get? node.id = some node) :
    ∃ copy after image rename, Tree.cloneTree node store = (.ok copy, after) ∧
      Cloned store.records after.records node.id copy image rename ∧
        ∀ context context' : Context, context'.library = context.library →
          context.library.Detached →
          (∀ definition, store.records.Names node.id definition →
            context'.bindings.get? (rename definition) = context.bindings.get? definition) →
          (interpret after.records node context).1 = (interpret after.records copy context').1 ∧
            ∀ definition, store.records.Names node.id definition →
              (interpret after.records copy context').2.1.bindings.get? (rename definition) =
                (interpret after.records node context).2.1.bindings.get? definition := by
  have tidy := reachable.tidy
  have present : ∀ ref, store.records.Referenced node.id ref →
      ∃ content, store.records.objects.get? ref = some content :=
    fun _ referenced => referenced.stored complete
  rcases exists_cloneTree tidy stored present with ⟨copy, after, done⟩
  rcases cloned tidy present done with ⟨image, rename, cloned⟩
  have tidy_after := tidy_cloneTree tidy stored done
  have complete_after := complete.cloneTree tidy.linked done
  have sound := complete.sound stored
  have sound_after := complete_after.sound (cloned.old_nodes stored)
  have sound_copy := complete_after.sound cloned.root_stored
  refine ⟨copy, after, image, rename, done, cloned, ?_⟩
  intro context context' library detached agree
  -- Both trees are images of the tree as it was before.
  have agree_here : ∀ definition, store.records.Names node.id definition →
      context.bindings.get? (id definition) = context.bindings.get? definition :=
    fun _ _ => rfl
  rcases (cloned.unchanged complete tidy stored).interpret_eq tidy tidy_after sound sound_after rfl
    rfl detached agree_here with ⟨value, bindings⟩
  rcases (cloned.pictured complete tidy.linked).interpret_eq tidy tidy_after sound sound_copy
    cloned.root_image library detached agree with ⟨value', bindings'⟩
  refine ⟨value.symm.trans value', fun definition named => ?_⟩
  exact (bindings' definition named).trans (bindings definition named).symm

/-- A block that declares a variable and then uses it. -/
def declaring : Store :=
  (addChild ⟨1⟩ (.use ⟨1⟩)
    (addChild ⟨1⟩ (.definition "x" none) (addRoot none Store.empty).2).2).2

theorem cloneTree_independent_declaring : ∃ node, Reachable declaring ∧
    Complete declaring.records ∧ declaring.records.nodes.get? node.id = some node ∧
      ∃ copy after image rename, Tree.cloneTree node declaring = (.ok copy, after) ∧
        Cloned declaring.records after.records node.id copy image rename ∧
          Builtin.library.Detached ∧
            (interpret after.records node
              ⟨Table.empty.insert ⟨1⟩ (.bool true), true, Builtin.library⟩).1 =
            (interpret after.records copy
              ⟨Table.empty.insert (rename ⟨1⟩) (.bool true), true, Builtin.library⟩).1 := by
  let node : Node := ⟨⟨1⟩, none, 0, none⟩
  have reachable : Reachable declaring := .addChild _ _ (.addChild _ _ (.addRoot _ .empty))
  have nodes : declaring.records.nodes =
      ((Table.empty.insert ⟨1⟩ node).insert ⟨2⟩
        ⟨⟨2⟩, some ⟨1⟩, 0, some ⟨.definition, ⟨1⟩⟩⟩).insert ⟨3⟩
          ⟨⟨3⟩, some ⟨1⟩, 1, some ⟨.use, ⟨2⟩⟩⟩ := by cbv
  have objects : declaring.records.objects =
      (Table.empty.insert ⟨.definition, ⟨1⟩⟩ (.definition "x" none)).insert ⟨.use, ⟨2⟩⟩
        (.use ⟨1⟩) := by rfl
  have complete : Complete declaring.records := by
    refine ⟨fun found wraps => ?_, fun found => ?_⟩
    · simp only [nodes, Table.get?_insert] at found
      split at found
      · cases found
        cases wraps
        exact ⟨.use ⟨1⟩, by simp [objects]⟩
      split at found
      · cases found
        cases wraps
        exact ⟨.definition "x" none, by simp [objects]⟩
      split at found <;> cases found
      cases wraps
    · simp only [objects, Table.get?_insert] at found
      split at found
      · cases found
        exact ⟨.definition "x" none, by simp [objects]⟩
      · split at found <;> cases found
  have stored : declaring.records.nodes.get? node.id = some node := by simp [nodes, node]
  rcases reachable.cloneTree_independent complete stored with
    ⟨copy, after, image, rename, done, cloned, independent⟩
  let context (definition : ObjectId) : Context :=
    ⟨Table.empty.insert definition (.bool true), true, Builtin.library⟩
  have agree : ∀ definition, declaring.records.Names node.id definition →
      (context (rename ⟨1⟩)).bindings.get? (rename definition) =
        (context ⟨1⟩).bindings.get? definition := by
    rintro definition ⟨use, _, found⟩
    simp only [objects, Table.get?_insert] at found
    split at found
    · cases found
      simp [context]
    · split at found <;> cases found
  have detached := Builtin.detached_library
  exact ⟨node, reachable, complete, stored, copy, after, image, rename, done, cloned, detached,
    (independent (context ⟨1⟩) (context (rename ⟨1⟩)) rfl detached agree).1⟩

end RuleTree
