import RuleTree.Proofs.Evaluation.Renaming
import RuleTree.Proofs.Tree.Copies

/-!
# A copy of a tree is like the tree

In a store where the objects of a tree are there, the tree can be copied (`Tree.exists_cloneTree`).
The copy has a node of its own for each node of the tree, in the same shape, around an object of its
own, which is the same up to the definitions that were copied with it (`Records.Cloned`).
-/

namespace RuleTree

open Step Store Records

variable {store after : Store}

/-! ## Nothing is in the way of a copy -/

namespace Tree

variable {nodes : List Node} {copies : Copies}

/-- Saving an object takes no object away. -/
theorem present_withCopy {ref : ContentRef} {content : Content}
    (present : ∃ old, store.records.objects.get? ref = some old) :
    ∃ old, (withCopy store content).records.objects.get? ref = some old := by
  rw [withCopy, get?_insertObject]
  split
  · exact ⟨content, rfl⟩
  · exact present

theorem exists_copyDefinitions
    (present : ∀ node ∈ nodes, ∀ ref, node.content = some ref →
      ∃ content, store.records.objects.get? ref = some content) :
    ∃ result after, copyDefinitions copies nodes store = (.ok result, after) := by
  induction nodes generalizing copies store with
  | nil => exact ⟨copies, store, rfl⟩
  | cons node rest ih =>
      rcases List.forall_mem_cons.mp present with ⟨present_node, present⟩
      by_cases declares : ∃ definition, node.content = some ⟨.definition, definition⟩
      · rcases declares with ⟨definition, wraps⟩
        rcases present_node _ wraps with ⟨content, found⟩
        have others (copies : Copies) : ∃ result after,
            copyDefinitions copies rest (withCopy store content) = (.ok result, after) :=
          ih fun other member ref wraps => present_withCopy (present other member ref wraps)
        rcases others _ with ⟨result, after, done⟩
        exact ⟨result, after,
          copyDefinitions_cons_eq_ok.mpr (.inr ⟨definition, content, wraps, found, done⟩)⟩
      · rcases ih present with ⟨result, after, done⟩
        exact ⟨result, after,
          copyDefinitions_cons_eq_ok.mpr (.inl ⟨not_exists.mp declares, done⟩)⟩

theorem exists_copyContents
    (present : ∀ node ∈ nodes, ∀ ref, node.content = some ref →
      ∃ content, store.records.objects.get? ref = some content) :
    ∃ result after, copyContents copies nodes store = (.ok result, after) := by
  induction nodes generalizing copies store with
  | nil => exact ⟨copies, store, rfl⟩
  | cons node rest ih =>
      rcases List.forall_mem_cons.mp present with ⟨present_node, present⟩
      by_cases handled : ∀ ref, node.content = some ref →
        ∃ copy, copies.contents.get? node.id = some copy
      · rcases ih present with ⟨result, after, done⟩
        exact ⟨result, after, copyContents_cons_eq_ok.mpr (.inl ⟨handled, done⟩)⟩
      · have pending : ∃ ref, node.content = some ref ∧ copies.contents.get? node.id = none := by
          simpa [Option.eq_none_iff_forall_ne_some] using handled
        rcases pending with ⟨ref, wraps, new⟩
        rcases present_node ref wraps with ⟨content, found⟩
        have others (copies' : Copies) : ∃ result after, copyContents copies' rest
            (withCopy store (copies.rebind content)) = (.ok result, after) :=
          ih fun other member ref wraps => present_withCopy (present other member ref wraps)
        rcases others _ with ⟨result, after, done⟩
        exact ⟨result, after,
          copyContents_cons_eq_ok.mpr (.inr ⟨ref, content, wraps, new, found, done⟩)⟩

/-- Under a stored parent a node can be saved unless its object is missing. -/
theorem saveNode_cases {parent : Option NodeId} (position : Nat) (content : Option ContentRef)
    (stored : ∀ id, parent = some id → ∃ above, store.records.nodes.get? id = some above) :
    (∃ copy, Store.saveNode parent position content store =
      (.ok copy, { store with records := store.records.insertNode copy })) ∨
      ∃ ref, content = some ref ∧ store.records.objects.get? ref = none ∧
        Store.saveNode parent position content store =
          (.error (.store (.objectNotFound ref)), store) := by
  by_cases objects : ∀ ref, content = some ref →
      ∃ object, store.records.objects.get? ref = some object
  · have saved : store.records.saveNode parent position content = .ok (_, _) :=
      Records.saveNode_eq_ok.mpr ⟨stored, objects, rfl, rfl⟩
    exact .inl ⟨_, Store.saveNode_eq_ok.mpr ⟨_, saved, rfl⟩⟩
  · have missing : ∃ ref, content = some ref ∧ store.records.objects.get? ref = none := by
      simpa [Option.eq_none_iff_forall_ne_some] using objects
    rcases missing with ⟨ref, rfl, absent⟩
    have parents : (parent.filter fun id => !store.records.nodes.contains id) = none := by
      cases parent with
      | none => rfl
      | some id =>
          rcases stored id rfl with ⟨above, found⟩
          simp [Table.contains, found]
    have object : (some ref).filter (fun ref => !store.records.objects.contains ref) =
        some ref := by
      simp [Option.filter, Table.contains, absent]
    have failed : store.records.saveNode parent position (some ref) =
        .error (.objectNotFound ref) := by
      rw [Records.saveNode, parents, object]
    exact .inr ⟨ref, rfl, absent, by simp [Store.saveNode, write, failed]⟩

/-- The root, or a node whose parent was copied before, is copied unless its object is missing. -/
theorem saveCopy_cases {root : NodeId} {node : Node} (copies : Copies)
    (copied : Table NodeId NodeId)
    (owned : node.id ≠ root → ∃ parent owner above, node.parent = some parent ∧
      copied.get? parent = some owner ∧ store.records.nodes.get? owner = some above) :
    (∃ copy, saveCopy root copies copied node store =
      (.ok copy, { store with records := store.records.insertNode copy })) ∨
      ∃ ref, copies.contents.get? node.id = some ref ∧ store.records.objects.get? ref = none ∧
        saveCopy root copies copied node store =
          (.error (.store (.objectNotFound ref)), store) := by
  unfold saveCopy
  split
  · exact saveNode_cases _ _ (by simp)
  · rename_i below
    rcases owned below with ⟨parent, owner, above, parent_eq, entry, found⟩
    have given : give (copiedParent copied node) store = (.ok owner, store) :=
      give_eq_ok.mpr ⟨by simp [copiedParent, parent_eq, entry], rfl⟩
    rw [bind_of_ok given]
    refine saveNode_cases _ _ ?_
    rintro _ ⟨⟩
    exact ⟨above, found⟩

/-- Of some nodes the copies are known and stored. -/
def Known (copied : Table NodeId NodeId) (seen : List NodeId) (store : Store) : Prop :=
  ∀ id ∈ seen, ∃ copy node, copied.get? id = some copy ∧ store.records.nodes.get? copy = some node

theorem Known.insert {copied : Table NodeId NodeId} {seen : List NodeId} {node copy : Node}
    (known : Known copied seen store) :
    Known (copied.insert node.id copy.id) (node.id :: seen)
      { store with records := store.records.insertNode copy } := by
  intro id member
  by_cases here : node.id = id
  · exact ⟨copy.id, copy, by simp [here], by simp⟩
  · rcases known id (by simpa [Ne.symm here] using member) with ⟨number, old, entry, found⟩
    refine ⟨number, ?_⟩
    rw [get?_insertNode]
    split
    · exact ⟨copy, by simp [here, entry], rfl⟩
    · exact ⟨old, by simp [here, entry], found⟩

/-- Nodes are copied, each after its parent, unless the object of a copy is missing. -/
theorem copyNodes_cases {root : NodeId} {copied : Table NodeId NodeId} {seen : List NodeId}
    (copies : Copies) (known : Known copied seen store) (parents : AfterParents seen nodes) :
    (∃ made after, copyNodes root copies copied nodes store = (.ok made, after) ∧
      made.length = nodes.length) ∨
      ∃ id ref after, copies.contents.get? id = some ref ∧
        store.records.objects.get? ref = none ∧
          copyNodes root copies copied nodes store =
            (.error (.store (.objectNotFound ref)), after) := by
  induction nodes generalizing copied seen store with
  | nil => exact .inl ⟨[], store, rfl, rfl⟩
  | cons node rest ih =>
      rcases parents with ⟨⟨parent, parent_mem, above⟩, parents⟩
      rcases known parent parent_mem with ⟨owner, stored, entry, found⟩
      rw [copyNodes_cons]
      rcases saveCopy_cases copies copied
          fun _ : node.id ≠ root => ⟨parent, owner, stored, above, entry, found⟩ with
        ⟨copy, saved⟩ | ⟨ref, wraps, missing, failed⟩
      · rw [bind_of_ok saved]
        rcases ih known.insert parents with
          ⟨made, after, done, count⟩ | ⟨id, ref, after, wraps, missing, failed⟩
        · rw [bind_of_ok done]
          exact .inl ⟨copy :: made, after, rfl, congrArg Nat.succ count⟩
        · exact .inr ⟨id, ref, after, wraps, missing, bind_of_error failed⟩
      · exact .inr ⟨node.id, ref, store, wraps, missing, bind_of_error failed⟩

/-- A whole tree is copied unless the object of a copy is missing. -/
theorem copyWhole_cases {node : Node} {rest : List Node} (copies : Copies)
    (parents : AfterParents [node.id] rest) :
    (∃ copy others after, copyNodes node.id copies .empty (node :: rest) store =
      (.ok (copy :: others), after) ∧ others.length = rest.length) ∨
      ∃ id ref after, copies.contents.get? id = some ref ∧
        store.records.objects.get? ref = none ∧
          copyNodes node.id copies .empty (node :: rest) store =
            (.error (.store (.objectNotFound ref)), after) := by
  have none_seen : Known .empty [] store := fun _ member => by cases member
  rw [copyNodes_cons]
  rcases saveCopy_cases copies .empty fun other : node.id ≠ node.id => absurd rfl other with
    ⟨copy, saved⟩ | ⟨ref, wraps, missing, failed⟩
  · rw [bind_of_ok saved]
    rcases copyNodes_cases copies none_seen.insert parents with
      ⟨others, after, done, count⟩ | ⟨id, ref, after, wraps, missing, failed⟩
    · rw [bind_of_ok done]
      exact .inl ⟨copy, others, after, rfl, count⟩
    · exact .inr ⟨id, ref, after, wraps, missing, bind_of_error failed⟩
  · exact .inr ⟨node.id, ref, store, wraps, missing, bind_of_error failed⟩

/-- A stored tree can be copied whose objects are stored. -/
theorem exists_cloneTree {node : Node} (tidy : Tidy store.records)
    (stored : store.records.nodes.get? node.id = some node)
    (present : ∀ ref, store.records.Referenced node.id ref →
      ∃ content, store.records.objects.get? ref = some content) :
    ∃ copy after, cloneTree node store = (.ok copy, after) := by
  rcases tidy.linked.subtree_eq stored with ⟨rest, listed, listing⟩
  have loaded : loadSubtree node.id store =
      (.ok (node :: rest), { store with fetches := store.fetches + 1 }) :=
    fetch_eq_ok.mpr ⟨listed, rfl⟩
  have wrapped : ∀ other ∈ node :: rest, ∀ ref, other.content = some ref →
      ∃ content, store.records.objects.get? ref = some content := by
    intro other member ref wraps
    rcases (listing.mem_whole_iff stored).mp member with ⟨found, within⟩
    exact present ref ⟨_, other, within, found, wraps⟩
  have definitions : ∃ defined second, copyDefinitions .none (node :: rest)
      { store with fetches := store.fetches + 1 } = (.ok defined, second) :=
    exists_copyDefinitions wrapped
  rcases definitions with ⟨defined, second, copied_definitions⟩
  have kept : Grown (fun _ => False) store.records second.records :=
    (copyDefinitions_spec copied_definitions).grown tidy
  have contents : ∃ copies third, copyContents defined (node :: rest) second =
      (.ok copies, third) := by
    apply exists_copyContents
    intro other member ref wraps
    rcases wrapped other member ref wraps with ⟨content, found⟩
    exact ⟨content, kept.objects found⟩
  rcases contents with ⟨copies, third, copied_contents⟩
  rcases Copied.of_passes tidy.linked listing copied_definitions copied_contents rfl with
    ⟨⟨made, copied⟩, _⟩
  have objects : ∀ id ref, copies.contents.get? id = some ref →
      ∃ content, third.records.objects.get? ref = some content := by
    intro id ref entry
    exact (copied.builds.of_mem_made tidy.linked (copied.each entry).1).2
  rcases copyWhole_cases copies listing.after with
    ⟨copy, others, after, nodes, _⟩ | ⟨id, ref, _, entry, missing, _⟩
  case inr =>
    rcases objects id ref entry with ⟨content, found⟩
    rw [missing] at found
    cases found
  refine ⟨copy, after, transaction_eq_ok.mpr ?_⟩
  rw [bind_of_ok loaded, bind_of_ok copied_definitions, bind_of_ok copied_contents,
    bind_of_ok nodes]
  rfl

end Tree

/-! ## What a copy is -/

namespace Records

/-- The tree at a root was copied: `image` leads from its nodes to theirs, and `rename` from the
definitions in the tree to the copies of these.  Nothing else was touched. -/
structure Cloned (before after : Records) (root : NodeId) (copy : Node) (image : NodeId → NodeId)
    (rename : ObjectId → ObjectId) : Prop where
  old_nodes : ∀ {id node}, before.nodes.get? id = some node → after.nodes.get? id = some node
  old_children : ∀ {id node}, before.nodes.get? id = some node →
    after.childList id = before.childList id
  old_objects : ∀ {ref content}, before.objects.get? ref = some content →
    after.objects.get? ref = some content
  root_image : image root = copy.id
  root_stored : after.nodes.get? copy.id = some copy
  is_root : copy.parent = none ∧ copy.position = 0
  within_iff : ∀ {id}, after.Within copy.id id ↔ ∃ original, before.Within root original ∧
    image original = id
  injective : ∀ {id other}, before.Within root id → before.Within root other →
    image id = image other → id = other
  new_nodes : ∀ {id}, after.Within copy.id id → before.nodes.get? id = none
  new_objects : ∀ {ref}, after.Referenced copy.id ref → before.objects.get? ref = none
  unshared : ∀ {id other ref}, after.Within copy.id id → after.Within copy.id other →
    after.Wraps id ref → after.Wraps other ref → id = other
  children : ∀ {id}, before.Within root id →
    after.orderedChildren (image id) = (before.orderedChildren id).map image
  below : ∀ {id node}, before.Within root id → id ≠ root → before.nodes.get? id = some node →
    ∃ node', after.nodes.get? (image id) = some node' ∧
      node'.parent = node.parent.map image ∧ node'.position = node.position
  bare : ∀ {id node}, before.Within root id → before.nodes.get? id = some node →
    node.content = none → ∃ node', after.nodes.get? (image id) = some node' ∧ node'.content = none
  objects : ∀ {id ref}, before.Within root id → before.Wraps id ref → ∃ ref' content,
    after.Wraps (image id) ref' ∧ ref'.kind = ref.kind ∧ before.objects.get? ref = some content ∧
      after.objects.get? ref' = some (content.rename rename)
  renamed : ∀ {definition}, before.Referenced root ⟨.definition, definition⟩ → ∃ id,
    before.Within root id ∧ before.Wraps id ⟨.definition, definition⟩ ∧
      after.Wraps (image id) ⟨.definition, rename definition⟩
  kept : ∀ {definition}, ¬before.Referenced root ⟨.definition, definition⟩ →
    rename definition = definition

end Records

namespace Tree

/-! ## Nodes and their images -/

section Images

variable {source records : Records} {root id : NodeId} {contents : Table NodeId ContentRef}
  {first node : Node} {rest : List Node} {copied : Table NodeId NodeId}

/-- Where a table of copies leads. -/
def imageOf (copied : Table NodeId NodeId) (id : NodeId) : NodeId := (copied.get? id).getD id

variable (copying : Copying source root contents first rest copied records)
  (listing : Listing source root rest) (linked : Linked source)

include copying in
theorem imageOf_root : imageOf copied root = first.id := by
  simp [imageOf, copying.origin.1]

include copying listing linked in
/-- Below the root, the copy of a node hangs below the copy of its parent. -/
theorem placed_image (under : source.Under root id) (found : source.nodes.get? id = some node) :
    ∃ parent copy, Placed contents copied records node parent (imageOf copied parent) copy ∧
      imageOf copied id = copy.id := by
  rcases linked.keyed found with rfl
  rcases copying.placed node ((listing.mem_iff node).mpr ⟨found, under⟩) with
    ⟨parent, owner, copy, placed⟩
  have owner_eq : imageOf copied parent = owner := by simp [imageOf, placed.copied_above]
  exact ⟨parent, copy, owner_eq ▸ placed, by simp [imageOf, placed.entry]⟩

include copying listing linked in
theorem entry_image (within : source.Within root id) :
    copied.get? id = some (imageOf copied id) := by
  rcases Relation.reflTransGen_iff_eq_or_transGen.mp within with rfl | under
  · simp [imageOf, copying.origin.1]
  · rcases linked.under_stored under with ⟨node, _, found, _⟩
    rcases linked.keyed found with rfl
    rcases copying.placed node ((listing.mem_iff node).mpr ⟨found, under⟩) with ⟨_, _, _, placed⟩
    simp [imageOf, placed.entry]

include copying listing in
theorem within_of_entry {copy : NodeId} (entry : copied.get? id = some copy) :
    source.Within root id ∧ imageOf copied id = copy := by
  refine ⟨?_, by simp [imageOf, entry]⟩
  rcases copying.keys entry with rfl | member
  · exact .refl
  · rcases List.mem_map.mp member with ⟨node, node_mem, rfl⟩
    exact ((listing.mem_iff node).mp node_mem).2.to_reflTransGen

include copying listing linked in
theorem imageOf_injective {other : NodeId} (within : source.Within root id)
    (within' : source.Within root other) (same : imageOf copied id = imageOf copied other) :
    id = other := by
  have entry := entry_image copying listing linked within
  rw [same] at entry
  exact copying.injective entry (entry_image copying listing linked within')

include copying listing linked in
theorem position_image {child : NodeId} (within : source.Within root id)
    (member : child ∈ source.childList id) :
    records.position? (imageOf copied child) = source.position? child := by
  rcases linked.owned member with ⟨node, found, _⟩
  have under : source.Under root child := Relation.TransGen.tail' within member
  rcases placed_image copying listing linked under found with ⟨parent, copy, placed, image⟩
  simp [position?, image, placed.stored, found, placed.position]

include copying listing linked in
/-- The children of a copy are the copies of the children. -/
theorem mem_childList_image {child : NodeId} (within : source.Within root id) :
    child ∈ records.childList (imageOf copied id) ↔
      ∃ original ∈ source.childList id, imageOf copied original = child := by
  constructor
  · intro member
    rcases copying.linked.owned member with ⟨below, found, above⟩
    have later : source.lastNode < child.val := by
      have first_later := (copying.stored (entry_image copying listing linked within)).1
      have rising := copying.linked.rising found above
      omega
    rcases copying.covers found later with ⟨original, entry⟩
    rcases within_of_entry copying listing entry with ⟨inside, image⟩
    refine ⟨original, ?_, image⟩
    rcases Relation.reflTransGen_iff_eq_or_transGen.mp inside with rfl | under
    · -- The copy of the root has no parent.
      rcases copying.origin with ⟨_, stored, no_parent, _⟩
      rw [imageOf_root copying] at image
      rw [image, found] at stored
      cases stored
      rw [no_parent] at above
      cases above
    · rcases linked.under_stored under with ⟨node, _, node_found, _⟩
      rcases placed_image copying listing linked under node_found with
        ⟨parent, copy, placed, image'⟩
      have stored := placed.stored
      rw [← image', image, found] at stored
      cases stored
      have owner := placed.below
      rw [above, Option.some.injEq] at owner
      have parent_within := (within_of_entry copying listing placed.copied_above).1
      rcases imageOf_injective copying listing linked within parent_within owner with rfl
      exact linked.listed node_found placed.above
  · rintro ⟨original, member, rfl⟩
    rcases linked.owned member with ⟨node, found, above⟩
    have under : source.Under root original := Relation.TransGen.tail' within member
    rcases placed_image copying listing linked under found with ⟨parent, copy, placed, image⟩
    have same := placed.above
    rw [above] at same
    cases same
    rw [image]
    exact copying.linked.listed placed.stored placed.below

include copying listing in
theorem orderedChildren_image (tidy : Tidy source) (within : source.Within root id) :
    records.orderedChildren (imageOf copied id) =
      (source.orderedChildren id).map (imageOf copied) := by
  have linked := tidy.linked
  have tidy_after := copying.tidy tidy listing
  have distinct : ((source.orderedChildren id).map (imageOf copied)).Nodup := by
    refine (orderedChildren_perm.nodup_iff.mpr (linked.once id)).map_on ?_
    intro child member other member' same
    exact imageOf_injective copying listing linked
      (within.tail (mem_orderedChildren.mp member)) (within.tail (mem_orderedChildren.mp member'))
      same
  have positions : ((source.orderedChildren id).map (imageOf copied)).map records.position? =
      (List.range (source.childList id).length).map some := by
    rw [← (tidy.contiguous id).positions_orderedChildren, List.map_map]
    apply List.map_congr_left
    intro child member
    exact position_image copying listing linked within (mem_orderedChildren.mp member)
  have same : (records.childList (imageOf copied id)).Perm
      ((source.orderedChildren id).map (imageOf copied)) := by
    refine (List.perm_ext_iff_of_nodup (copying.linked.once _) distinct).mpr fun child => ?_
    rw [mem_childList_image copying listing linked within, List.mem_map]
    simp only [mem_orderedChildren]
  have ordered := inOrder_eq_of_perm same (fun _ _ => rfl)
    (tidy_after.contiguous _).nodup_positions
  exact ordered.trans (inOrder_of_positions positions)

include copying listing in
/-- The nodes of the copy are the images of the nodes of the tree. -/
theorem within_image_iff (tidy : Tidy source) : records.Within first.id id ↔
    ∃ original, source.Within root original ∧ imageOf copied original = id := by
  constructor
  · intro within
    induction within with
    | refl => exact ⟨root, .refl, imageOf_root copying⟩
    | tail _ listed ih =>
        rcases ih with ⟨original, within, rfl⟩
        rcases (mem_childList_image copying listing tidy.linked within).mp listed with
          ⟨child, member, rfl⟩
        exact ⟨child, within.tail member, rfl⟩
  · rintro ⟨original, within, rfl⟩
    induction within with
    | refl =>
        rw [imageOf_root copying]
        exact .refl
    | tail within listed ih =>
        exact ih.tail ((mem_childList_image copying listing tidy.linked within).mpr
          ⟨_, listed, rfl⟩)

end Images

/-! ## Objects and their copies -/

/-- Where the definitions of a tree went. -/
def renamingOf (copies : Copies) (definition : ObjectId) : ObjectId :=
  (copies.definitions.get? definition).getD definition

theorem rebind_eq_rename (copies : Copies) (content : Content) :
    copies.rebind content = content.rename (renamingOf copies) := by
  cases content <;> rfl

section Objects

variable {id : NodeId} {root copy node : Node} {rest : List Node} {copies : Copies}
  {made : List ContentRef} {middle : Store} {copied : Table NodeId NodeId} {number : NodeId}
  (passes : ClonePasses store id root rest copies made middle copy after)
  (copying : Copying store.records root.id copies.contents copy rest copied after.records)
  (linked : Linked store.records)

include passes in
theorem mem_passes_iff : node ∈ root :: rest ↔
    store.records.nodes.get? node.id = some node ∧ store.records.Within root.id node.id :=
  passes.listing.mem_whole_iff passes.stored

include passes copying linked in
/-- The copy of a node wraps the copy of its object. -/
theorem content_image (within : store.records.Within root.id number)
    (found : store.records.nodes.get? number = some node) :
    ∃ node', after.records.nodes.get? (imageOf copied number) = some node' ∧
      node'.content = copies.contents.get? number := by
  rcases Relation.reflTransGen_iff_eq_or_transGen.mp within with rfl | under
  · rcases copying.origin with ⟨_, stored, _, _, content⟩
    rw [imageOf_root copying]
    exact ⟨copy, stored, content⟩
  · rcases placed_image copying passes.listing linked under found with
      ⟨_, node', placed, image⟩
    rcases linked.keyed found with rfl
    rw [image]
    exact ⟨node', placed.stored, placed.content⟩

include passes linked in
/-- Copies are made of the objects of the tree only. -/
theorem original_of_entry {ref : ContentRef} (entry : copies.contents.get? number = some ref) :
    ref ∈ made ∧ ∃ node original, store.records.nodes.get? number = some node ∧
      store.records.Within root.id number ∧ node.content = some original ∧
        ref.kind = original.kind ∧
          ∀ content, store.records.objects.get? original = some content →
            after.records.objects.get? ref = some (content.rename (renamingOf copies)) := by
  rcases passes.copied.each entry with
    ⟨made_ref, node, member, rfl, original, wraps, kind, _, same⟩
  rcases (mem_passes_iff passes).mp member with ⟨found, within⟩
  refine ⟨made_ref, node, original, found, within, wraps, kind, fun content stored => ?_⟩
  have planted := (passes.planting linked).grown (passes.copied.builds.linked linked)
  rw [← rebind_eq_rename]
  exact planted.objects (same content stored)

include passes copying linked in
theorem object_image {ref : ContentRef} (within : store.records.Within root.id number)
    (wraps : store.records.Wraps number ref) :
    ∃ ref', copies.contents.get? number = some ref' ∧
      after.records.Wraps (imageOf copied number) ref' ∧ ref'.kind = ref.kind ∧
        ∀ content, store.records.objects.get? ref = some content →
          after.records.objects.get? ref' = some (content.rename (renamingOf copies)) := by
  rcases wraps with ⟨node, found, wraps⟩
  rcases linked.keyed found with rfl
  have member := (mem_passes_iff passes).mpr ⟨found, within⟩
  rcases passes.covered node member ref wraps with ⟨ref', entry⟩
  rcases content_image passes copying linked within found with ⟨node', stored, content⟩
  rcases original_of_entry passes linked entry with
    ⟨_, node'', original, found', _, wraps', kind, same⟩
  rw [found] at found'
  cases found'
  rw [wraps] at wraps'
  cases wraps'
  exact ⟨ref', entry, ⟨node', stored, content.trans entry⟩, kind, same⟩

include passes copying linked in
/-- What the copy of a node wraps is the copy of what the node wraps. -/
theorem entry_of_wraps {ref : ContentRef} (within : store.records.Within root.id number)
    (wraps : after.records.Wraps (imageOf copied number) ref) :
    copies.contents.get? number = some ref := by
  rcases linked.within_stored ⟨_, passes.stored⟩ within with ⟨node, found⟩
  rcases content_image passes copying linked within found with ⟨node', stored, content⟩
  rcases wraps with ⟨node'', stored', wraps⟩
  rw [stored] at stored'
  cases stored'
  exact content.symm.trans wraps

end Objects

/-! ## Whole copies -/

theorem cloned {node copy : Node} (tidy : Tidy store.records)
    (present : ∀ ref, store.records.Referenced node.id ref →
      ∃ content, store.records.objects.get? ref = some content)
    (done : cloneTree node store = (.ok copy, after)) :
    ∃ image rename, Cloned store.records after.records node.id copy image rename := by
  have linked := tidy.linked
  rcases cloneTree_spec linked done with ⟨root, rest, copies, made, middle, passes⟩
  rcases passes.copying tidy with ⟨copied, copying⟩
  have listing := passes.listing
  have builds := passes.builds linked
  rw [← passes.own]
  rw [← passes.own] at present
  have grown := copying.grown
  rcases copying.origin with ⟨_, root_stored, no_parent, first_position, _⟩
  have image_of {id : NodeId} (within : after.records.Within copy.id id) :=
    (within_image_iff copying listing tidy).mp within
  refine
    ⟨imageOf copied, renamingOf copies,
      { old_nodes := grown.nodes
        old_children := fun found => grown.lists found id
        old_objects := (builds.grown linked).objects
        root_image := imageOf_root copying
        root_stored
        is_root := ⟨no_parent, first_position⟩
        within_iff := within_image_iff copying listing tidy
        injective := imageOf_injective copying listing linked
        new_nodes := ?_, new_objects := ?_, unshared := ?_
        children := orderedChildren_image copying listing tidy
        below := ?_, bare := ?_, objects := ?_, renamed := ?_, kept := ?_ }⟩
  · intro id within
    rcases image_of within with ⟨original, inside, rfl⟩
    exact linked.get?_fresh (copying.stored (entry_image copying listing linked inside)).1
  · rintro ref ⟨id, inner, within, found, wraps⟩
    rcases image_of within with ⟨original, inside, rfl⟩
    have entry := entry_of_wraps passes copying linked inside ⟨inner, found, wraps⟩
    exact builds.absent_of_mem_made linked (passes.copied.each entry).1
  · intro id other ref within within' wraps wraps'
    rcases image_of within with ⟨original, inside, rfl⟩
    rcases image_of within' with ⟨original', inside', rfl⟩
    have entry := entry_of_wraps passes copying linked inside wraps
    have entry' := entry_of_wraps passes copying linked inside' wraps'
    rw [passes.copied.injective entry entry']
  · intro id inner within other found
    rcases Relation.reflTransGen_iff_eq_or_transGen.mp within with same | under
    · exact absurd same other
    · rcases placed_image copying listing linked under found with ⟨parent, node', placed, image⟩
      rw [image]
      exact ⟨node', placed.stored, by rw [placed.below, placed.above]; rfl, placed.position⟩
  · intro id inner within found bare
    rcases content_image passes copying linked within found with ⟨node', stored, content⟩
    refine ⟨node', stored, content.trans ?_⟩
    cases entry : copies.contents.get? id with
    | none => rfl
    | some ref =>
        rcases original_of_entry passes linked entry with ⟨_, inner', _, found', _, wraps, _⟩
        rw [found] at found'
        cases found'
        rw [bare] at wraps
        cases wraps
  · intro id ref within wraps
    rcases object_image passes copying linked within wraps with ⟨ref', _, wraps', kind, same⟩
    rcases wraps with ⟨inner, found, content⟩
    rcases present ref ⟨id, inner, within, found, content⟩ with ⟨object, stored⟩
    exact ⟨ref', object, wraps', kind, stored, same object stored⟩
  · rintro definition ⟨id, inner, within, found, wraps⟩
    rcases linked.keyed found with rfl
    have member := (mem_passes_iff passes).mpr ⟨found, within⟩
    rcases passes.renamed inner member definition wraps with ⟨target, renamed⟩
    rcases passes.copied.renamed renamed with ⟨declaring, declaring_mem, declares, entry⟩
    rcases (mem_passes_iff passes).mp declaring_mem with ⟨declaring_found, declaring_within⟩
    rcases content_image passes copying linked declaring_within declaring_found with
      ⟨node', stored, content⟩
    refine ⟨declaring.id, declaring_within, ⟨declaring, declaring_found, declares⟩, node', stored,
      ?_⟩
    rw [content, entry]
    simp [renamingOf, renamed]
  · intro definition outside
    cases renamed : copies.definitions.get? definition with
    | none => simp [renamingOf, renamed]
    | some target =>
        rcases passes.copied.renamed renamed with ⟨declaring, declaring_mem, declares, _⟩
        rcases (mem_passes_iff passes).mp declaring_mem with ⟨found, within⟩
        exact absurd ⟨_, _, within, found, declares⟩ outside

end Tree

end RuleTree
