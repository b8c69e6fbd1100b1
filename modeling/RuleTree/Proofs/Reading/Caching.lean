import RuleTree.Proofs.Reachable
import RuleTree.Proofs.Reading.Agreement
import RuleTree.Proofs.Reading.Interchange

/-!
# The snapshot makes no difference

Reading a tree through a snapshot and reading it node by node agree on every answer.  So evaluating
the tree and writing it as a document do the same whichever way it is read (`interpretWith_cached`,
`Block.alike_build`).
-/

namespace RuleTree

open Step Records Reading

variable {records : Records}

/-- A faithful snapshot gives the answers of the records about a tree for which all is stored. -/
theorem Reading.interchangeable (tidy : Tidy records) :
    Interchangeable records .cached records .direct (Faithfully records)
      (fun depth depth' node => depth = depth' ∧ Sound records node) (fun _ => True) where
  ends := by
    rintro depth depth' node ⟨rfl, _⟩
    rfl
  content := by
    rintro depth depth' node ⟨_, sound⟩
    exact (alike_content tidy sound).imp fun content content' agree => ⟨agree, fun _ _ => trivial⟩
  children := by
    rintro depth depth' node ⟨same, sound⟩
    refine (alike_children tidy sound).imp ?_
    rintro nodes nodes' ⟨agree, below⟩
    exact ⟨agree, fun child member => ⟨Nat.succ.inj same, below child member⟩⟩
  definition _ := alike_object tidy.linked _

theorem Evaluation.alike_node [Host] {ties : Context → Context → Prop}
    (inseparable : Inseparable ties) (tidy : Tidy records) (depth : Nat) {node : Node}
    (sound : Sound records node) :
    Alike (Together (Faithfully records) ties) Eq (Evaluation.node records .cached depth node)
      (Evaluation.node records .direct depth node) :=
  (interchangeable tidy).alike_node inseparable ⟨rfl, sound⟩

/-- In contexts that cannot be told apart, a tree has the same value whichever way it is read, and
such contexts are left. -/
theorem interpretWith_cached [Host] {ties : Context → Context → Prop}
    (inseparable : Inseparable ties) (tidy : Tidy records) {node : Node}
    (sound : Sound records node) {context context' : Context} (tied : ties context context') :
    (interpretWith records .cached node context).1 =
        (interpretWith records .direct node context').1 ∧
      ties (interpretWith records .cached node context).2.1
        (interpretWith records .direct node context').2.1 := by
  rcases Evaluation.alike_node inseparable tidy records.depthBound sound ⟨Reading.start, context⟩
    ⟨Reading.start, context'⟩ ⟨Snapshot.faithful_empty, tied⟩ with ⟨⟨_, left⟩, values⟩
  exact ⟨values.eq fun _ _ agree => agree, left⟩

theorem Block.alike_build (tidy : Tidy records) (ids : Bool) {node : Node}
    (sound : Sound records node) :
    Alike (Faithfully records) Eq (build records .cached ids node)
      (build records .direct ids node) :=
  (interchangeable tidy).alike_build ids ⟨rfl, sound⟩ ⟨rfl, sound⟩

/-! ## All trees of a store -/

/-- The objects of all nodes and the definitions that all variables name are stored. -/
structure Complete (records : Records) : Prop where
  contents : ∀ {id node ref}, records.nodes.get? id = some node → node.content = some ref →
    ∃ content, records.objects.get? ref = some content
  definitions : ∀ {ref definition}, records.objects.get? ref = some (.use definition) →
    ∃ content, records.objects.get? ⟨.definition, definition⟩ = some content

theorem Complete.sound (complete : Complete records) {node : Node}
    (stored : records.nodes.get? node.id = some node) : Sound records node := by
  refine ⟨stored, fun id _ node' ref found wraps => ?_⟩
  rcases complete.contents found wraps with ⟨content, object⟩
  refine ⟨content, object, ?_⟩
  rintro definition rfl
  exact complete.definitions object

/-- That a store is complete can be computed. -/
theorem Complete.of_all
    (contents : (records.nodes.values.all fun node =>
      node.content.all records.objects.contains) = true)
    (definitions : (records.objects.values.all fun content =>
      match content with
      | .use definition => records.objects.contains ⟨.definition, definition⟩
      | _ => true) = true) : Complete records := by
  constructor
  · intro id node ref found wraps
    have entry := (Table.mem_entries_iff _ _ _).mpr found
    have present := List.all_eq_true.mp contents node (List.mem_map.mpr ⟨_, entry, rfl⟩)
    rw [wraps] at present
    exact Option.isSome_iff_exists.mp present
  · intro ref definition found
    have entry := (Table.mem_entries_iff _ _ _).mpr found
    have present := List.all_eq_true.mp definitions _ (List.mem_map.mpr ⟨_, entry, rfl⟩)
    exact Option.isSome_iff_exists.mp present

end RuleTree
