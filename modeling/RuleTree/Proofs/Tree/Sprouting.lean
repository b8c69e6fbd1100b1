import RuleTree.Proofs.Tree.Uprooting

/-!
# New trees and their deletion

A creation and a copy add a tree to the records.  `Records.Sprouted` says how: the new nodes hang
below one new root, whatever is new is wrapped or named in the tree, and what the tree names besides
is either needed elsewhere or never deleted with a tree.  The deletion of such a tree leaves the
records as they were before it was added, apart from the numbers that were given out
(`Records.Sprouted.restored`).
-/

namespace RuleTree.Records

variable {before middle after records : Records} {made wrapped : List ContentRef} {root : Node}

/-! ## Lists of children -/

/-- Only stored nodes have a list of children. -/
structure Housed (records : Records) : Prop where
  stored : ∀ {id list}, records.children.get? id = some list →
    ∃ node, records.nodes.get? id = some node

namespace Housed

theorem empty : Housed empty where
  stored found := by cases found

theorem unlisted (housed : Housed records) {id : NodeId} (absent : records.nodes.get? id = none) :
    records.children.get? id = none := by
  cases found : records.children.get? id with
  | none => rfl
  | some list =>
      rcases housed.stored found with ⟨node, present⟩
      rw [absent] at present
      cases present

theorem insertNode (housed : Housed records) {node : Node}
    (stored : ∀ id, node.parent = some id → ∃ above, records.nodes.get? id = some above) :
    Housed (records.insertNode node) where
  stored {id list} found := by
    have old : ∃ node, records.nodes.get? id = some node := by
      cases above : node.parent with
      | none =>
          simp only [Records.insertNode, above] at found
          exact housed.stored found
      | some parent =>
          simp only [Records.insertNode, above, Table.get?_insert] at found
          split at found
          · rename_i same
            exact same ▸ stored parent above
          · exact housed.stored found
    rcases old with ⟨other, present⟩
    rw [get?_insertNode]
    split
    · exact ⟨node, rfl⟩
    · exact ⟨other, present⟩

theorem builds (housed : Housed before) (builds : Builds before made wrapped after) :
    Housed after := by
  induction builds with
  | refl => exact housed
  | object content _ ih => exact ⟨ih.stored⟩
  | node _ saved ih | root _ saved ih =>
      rcases saveNode_eq_ok.mp saved with ⟨stored, _, rfl, rfl⟩
      exact ih.insertNode stored

theorem repositioned {place : NodeId → Nat → Nat} (housed : Housed before)
    (moved : Repositioned place before after) : Housed after where
  stored found := by
    rw [moved.children] at found
    rcases housed.stored found with ⟨node, present⟩
    rw [moved.nodes, present]
    exact ⟨_, rfl⟩

theorem stages {id : NodeId} {parent : Option NodeId} {objects : Table ContentRef Content}
    (housed : Housed before) (stages : Stages id parent before objects middle after) :
    Housed after := by
  have pruned := stages.pruned
  have left : Housed middle := by
    constructor
    intro other list found
    by_cases within : before.Within id other
    · rw [pruned.cleared within] at found
      cases found
    · have listed : ∃ list, before.children.get? other = some list := by
        by_contra absent
        have none :=
          Option.eq_none_iff_forall_ne_some.mpr fun list here => absurd ⟨list, here⟩ absent
        have unlisted : id ∉ before.childList other := by simp [childList, none]
        have same := pruned.lists within unlisted
        rw [found] at same
        exact absurd same.symm (by simp [none])
      rcases listed with ⟨list, listed⟩
      rcases housed.stored listed with ⟨node, present⟩
      exact ⟨node, (pruned.kept within).1.trans present⟩
  rcases stages.moved with ⟨place, moved⟩
  exact left.repositioned moved

end Housed

/-- A list of children that changed became longer. -/
theorem Builds.lists (builds : Builds before made wrapped after) (id : NodeId) :
    after.children.get? id = before.children.get? id ∨
      (before.childList id).length < (after.childList id).length := by
  have step {records : Records} {node : Node}
      (ih : records.children.get? id = before.children.get? id ∨
        (before.childList id).length < (records.childList id).length) :
      (records.insertNode node).children.get? id = before.children.get? id ∨
        (before.childList id).length < ((records.insertNode node).childList id).length := by
    rw [childList_insertNode]
    split
    · right
      rw [List.length_append, List.length_singleton]
      rcases ih with same | longer
      · have same_list : records.childList id = before.childList id := by
          rw [childList, childList, same]
        rw [same_list]
        omega
      · omega
    · rename_i other
      refine ih.imp_left fun same => ?_
      rw [← same]
      unfold insertNode
      cases above : node.parent with
      | none => rfl
      | some parent =>
          have differ : parent ≠ id := by
            rintro rfl
            exact other above
          simp [differ]
  induction builds with
  | refl => exact .inl rfl
  | object _ _ ih => exact ih
  | node _ saved ih | root _ saved ih =>
      rcases saveNode_eq_ok.mp saved with ⟨_, _, rfl, rfl⟩
      exact step ih

/-- Where no old node was extended, the lists of children are as they were. -/
theorem Builds.lists_kept (builds : Builds before made wrapped after)
    (grown : Grown (fun _ => False) before after) {id : NodeId} {node : Node}
    (found : before.nodes.get? id = some node) :
    after.children.get? id = before.children.get? id := by
  refine (builds.lists id).resolve_right fun longer => ?_
  rw [grown.lists found not_false] at longer
  exact Nat.lt_irrefl _ longer

/-! ## New trees -/

/-- A tree was added: new nodes hang below the root and wrap new objects, other new objects are
local definitions that are named, and every variable names something new, something with a source,
or something that was named before. -/
structure Sprouted (before : Records) (root : Node) (after : Records) : Prop where
  grown : Grown (fun _ => False) before after
  lists : ∀ {id node}, before.nodes.get? id = some node →
    after.children.get? id = before.children.get? id
  stored : after.nodes.get? root.id = some root
  alone : root.parent = none
  fresh : before.nodes.get? root.id = none
  below : ∀ {id node}, after.nodes.get? id = some node →
    before.nodes.get? id = some node ∨ after.Within root.id id
  wraps : ∀ {id ref}, after.Wraps id ref → before.Wraps id ref ∨
    before.objects.get? ref = none ∧ ∃ content, after.objects.get? ref = some content
  needed : ∀ {ref content}, after.objects.get? ref = some content →
    before.objects.get? ref = some content ∨ (∃ id, after.Wraps id ref) ∨
      ∃ name use, content = .definition name none ∧ after.objects.get? use = some (.use ref.id)
  named : ∀ {use definition}, after.objects.get? use = some (.use definition) →
    (before.objects.get? ⟨.definition, definition⟩ = none ∧
        ∃ content, after.objects.get? ⟨.definition, definition⟩ = some content) ∨
      (∃ name source, before.objects.get? ⟨.definition, definition⟩ =
        some (.definition name (some source))) ∨
        ∃ old, before.objects.get? old = some (.use definition)

namespace Sprouted

variable (sprouted : Sprouted before root after)

include sprouted

/-- A new tree adds nothing that refers to something missing. -/
theorem complete (complete : Complete before) : Complete after where
  contents {id node ref} found content := by
    rcases sprouted.wraps ⟨node, found, content⟩ with ⟨old, old_found, wraps⟩ | ⟨_, present⟩
    · rcases complete.contents old_found wraps with ⟨object, present⟩
      exact ⟨object, sprouted.grown.objects present⟩
    · exact present
  definitions found := by
    rcases sprouted.named found with ⟨_, present⟩ | ⟨_, _, present⟩ | ⟨old, named⟩
    · exact present
    · exact ⟨_, sprouted.grown.objects present⟩
    · rcases complete.definitions named with ⟨object, present⟩
      exact ⟨object, sprouted.grown.objects present⟩

theorem absent_of_within (linked : Linked before) (linked' : Linked after) {id : NodeId}
    (within : after.Within root.id id) : before.nodes.get? id = none := by
  induction within with
  | refl => exact sprouted.fresh
  | @tail parent id _ child ih =>
      cases found : before.nodes.get? id with
      | none => rfl
      | some node =>
          -- An old child has an old parent.
          rcases linked'.owned child with ⟨node', found', above⟩
          rw [sprouted.grown.nodes found] at found'
          cases found'
          rcases linked.stored found above with ⟨owner, owner_found⟩
          rw [ih] at owner_found
          cases owner_found

theorem absent_of_referenced (linked : Linked before) (linked' : Linked after) {ref : ContentRef}
    (referenced : after.Referenced root.id ref) : before.objects.get? ref = none := by
  rcases referenced with ⟨id, node, within, found, content⟩
  rcases sprouted.wraps ⟨node, found, content⟩ with ⟨old, old_found, wraps⟩ | ⟨absent, _⟩
  · rw [sprouted.absent_of_within linked linked' within] at old_found
    cases old_found
  · exact absent

/-- What is wrapped and new is wrapped in the new tree. -/
theorem referenced_of_wraps (complete : Complete before) {id : NodeId} {ref : ContentRef}
    (wraps : after.Wraps id ref) (absent : before.objects.get? ref = none) :
    after.Referenced root.id ref := by
  rcases wraps with ⟨node, found, content⟩
  rcases sprouted.below found with old | within
  · rcases complete.contents old content with ⟨object, present⟩
    rw [absent] at present
    cases present
  · exact ⟨id, node, within, found, content⟩

/-- The uses of a new definition lie in the new tree. -/
theorem referenced_of_use (complete : Complete before) {use : ContentRef} {definition : ObjectId}
    (found : after.objects.get? use = some (.use definition))
    (absent : before.objects.get? ⟨.definition, definition⟩ = none) :
    after.Referenced root.id use := by
  have new : before.objects.get? use = none := by
    cases old : before.objects.get? use with
    | none => rfl
    | some content =>
        have same := sprouted.grown.objects old
        rw [found] at same
        cases same
        rcases complete.definitions old with ⟨object, present⟩
        rw [absent] at present
        cases present
  rcases sprouted.needed found with old | ⟨id, wraps⟩ | ⟨_, _, impossible, _⟩
  · rw [new] at old
    cases old
  · exact sprouted.referenced_of_wraps complete wraps new
  · cases impossible

/-- What a deletion of the new tree takes is what is new. -/
theorem removed_iff (linked : Linked before) (linked' : Linked after) (complete : Complete before)
    {ref : ContentRef} {content : Content}
    (found : after.objects.get? ref = some content) :
    after.Referenced root.id ref ∨ after.Freed root.id ref ↔ before.objects.get? ref = none := by
  have address (kind : content.kind = .definition) :
      (⟨.definition, ref.id⟩ : ContentRef) = ref := by
    rw [← kind, (linked'.addressed found).2]
  constructor
  · rintro (referenced | ⟨⟨name, here⟩, _, ⟨use, use_referenced, use_found⟩, only_there⟩)
    · exact sprouted.absent_of_referenced linked linked' referenced
    · rw [found] at here
      cases here
      rw [← address rfl]
      rcases sprouted.named use_found with ⟨absent, _⟩ | ⟨_, _, external⟩ | ⟨old, named⟩
      · exact absent
      · have same := sprouted.grown.objects external
        rw [address rfl, found] at same
        cases same
      · -- An old variable that names the definition keeps it from being freed.
        have inside := only_there (sprouted.grown.objects named)
        rw [sprouted.absent_of_referenced linked linked' inside] at named
        cases named
  · intro absent
    by_cases wrapped : ∃ id, after.Wraps id ref
    · rcases wrapped with ⟨id, wraps⟩
      exact .inl (sprouted.referenced_of_wraps complete wraps absent)
    rcases sprouted.needed found with old | wrapped' | ⟨name, use, rfl, used⟩
    · rw [absent] at old
      cases old
    · exact absurd wrapped' wrapped
    · rw [← address rfl] at absent
      have inside {use : ContentRef} (used : after.objects.get? use = some (.use ref.id)) :=
        sprouted.referenced_of_use complete used absent
      exact .inr
        { local_definition := ⟨name, found⟩
          unwrapped := fun node_found content => wrapped ⟨_, _, node_found, content⟩
          used := ⟨use, inside used, used⟩
          only_there := inside }

section Restored

variable {last : Records} (linked : Linked before) (linked' : Linked after)
  (uprooted : Uprooted root.id after last)

include linked linked' uprooted

theorem restored_nodes : last.nodes = before.nodes := by
  apply Table.ext_get?
  intro id
  by_cases within : after.Within root.id id
  · rw [(uprooted.gone within).1, sprouted.absent_of_within linked linked' within]
  · rw [(uprooted.kept within).1]
    cases found : before.nodes.get? id with
    | some node => exact sprouted.grown.nodes found
    | none =>
        cases found' : after.nodes.get? id with
        | none => rfl
        | some node =>
            have old := (sprouted.below found').resolve_right within
            rw [found] at old
            cases old

theorem restored_children (housed : Housed before) (housed' : Housed after) :
    last.children = before.children := by
  apply Table.ext_get?
  intro id
  by_cases within : after.Within root.id id
  · have absent := sprouted.absent_of_within linked linked' within
    rw [(uprooted.gone within).2, housed.unlisted absent]
  · have nodes := sprouted.restored_nodes linked linked' uprooted
    rw [(uprooted.kept within).2]
    cases found : before.nodes.get? id with
    | some node => exact sprouted.lists found
    | none =>
        rw [housed.unlisted found]
        apply housed'.unlisted
        rw [← (uprooted.kept within).1, nodes, found]

theorem restored_objects (complete : Complete before) : last.objects = before.objects := by
  apply Table.ext_get?
  intro ref
  have objects_kept : ¬(after.Referenced root.id ref ∨ after.Freed root.id ref) →
      last.objects.get? ref = after.objects.get? ref := by
    rw [not_or]
    exact fun removed => uprooted.objects_kept removed.1 removed.2
  cases found : after.objects.get? ref with
  | none =>
      have absent : before.objects.get? ref = none := by
        cases old : before.objects.get? ref with
        | none => rfl
        | some content =>
            rw [sprouted.grown.objects old] at found
            cases found
      by_cases removed : after.Referenced root.id ref ∨ after.Freed root.id ref
      · rw [uprooted.objects_gone removed, absent]
      · rw [objects_kept removed, found, absent]
  | some content =>
      have removed_iff := sprouted.removed_iff linked linked' complete found
      by_cases removed : after.Referenced root.id ref ∨ after.Freed root.id ref
      · rw [uprooted.objects_gone removed, removed_iff.mp removed]
      · rcases Option.ne_none_iff_exists'.mp (mt removed_iff.mpr removed) with ⟨old, old_found⟩
        rw [objects_kept removed, old_found, sprouted.grown.objects old_found]

/-- Once the new tree was deleted, nodes, lists of children and objects are what they were. -/
theorem restored (complete : Complete before) (housed : Housed before) (housed' : Housed after) :
    last = { before with lastNode := last.lastNode, lastObject := last.lastObject } := by
  have nodes := sprouted.restored_nodes linked linked' uprooted
  have children := sprouted.restored_children linked linked' uprooted housed housed'
  have objects := sprouted.restored_objects linked linked' uprooted complete
  rcases last with ⟨lastNode, lastObject, nodes', children', objects'⟩
  rcases before with ⟨_, _, _, _, _⟩
  simp only at nodes children objects
  subst nodes children objects
  rfl

end Restored

end Sprouted

end RuleTree.Records
