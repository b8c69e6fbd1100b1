import RuleTree.Proofs.Tree.Editing

/-!
# Copies of trees

The nodes of a tree are copied in the order of its listing, in which the children of a node come
from the last to the first, so that positions are not contiguous while a copy is made.  What holds
throughout is that the children of a copy have the positions of those children that were copied
already (`Tree.Copying`).  In the end these are all children.
-/

namespace RuleTree.Tree

open Step Store Records

variable {store after : Store}

/-! ## Objects -/

/-- The store after an object was read and another was saved. -/
def withCopy (store : Store) (object : Content) : Store :=
  { store with
    records := store.records.insertObject ⟨object.kind, ⟨store.records.lastObject + 1⟩⟩ object
    fetches := store.fetches + 1 }

/-- An object is saved once more, perhaps with a change. -/
theorem load_save_eq_ok {α : Type} (change : Content → Content) {ref : ContentRef}
    {next : ContentRef → Action α} {result : α} :
    (loadObject ref >>= fun content => saveObject (change content) >>= next) store =
        (.ok result, after) ↔
      ∃ content, store.records.objects.get? ref = some content ∧
        next ⟨(change content).kind, ⟨store.records.lastObject + 1⟩⟩
          (withCopy store (change content)) = (.ok result, after) := by
  rw [bind_eq_ok]
  constructor
  · rintro ⟨content, middle, loaded, done⟩
    rcases fetch_eq_ok.mp loaded with ⟨found, rfl⟩
    rcases bind_eq_ok.mp done with ⟨copy, middle, saved, done⟩
    rcases saveObject_eq_ok.mp saved with ⟨rfl, rfl⟩
    exact ⟨content, object_eq_ok.mp found, done⟩
  · rintro ⟨content, found, done⟩
    refine ⟨content, _, fetch_eq_ok.mpr ⟨object_eq_ok.mpr found, rfl⟩, ?_⟩
    exact bind_eq_ok.mpr ⟨_, _, saveObject_eq_ok.mpr ⟨rfl, rfl⟩, done⟩

section Passes

variable {copies result : Copies} {node : Node} {nodes : List Node}

/-- The first pass saves a definition once more and skips any other node. -/
theorem copyDefinitions_cons_eq_ok :
    copyDefinitions copies (node :: nodes) store = (.ok result, after) ↔
      ((∀ definition, node.content ≠ some ⟨.definition, definition⟩) ∧
          copyDefinitions copies nodes store = (.ok result, after)) ∨
        ∃ definition content, node.content = some ⟨.definition, definition⟩ ∧
          store.records.objects.get? ⟨.definition, definition⟩ = some content ∧
            copyDefinitions
              { contents := copies.contents.insert node.id
                  ⟨content.kind, ⟨store.records.lastObject + 1⟩⟩
                definitions := copies.definitions.insert definition
                  ⟨store.records.lastObject + 1⟩ }
              nodes (withCopy store content) = (.ok result, after) := by
  rw [copyDefinitions]
  cases wraps : node.content with
  | none => simp
  | some ref =>
      rcases ref with ⟨kind, definition⟩
      by_cases own : kind = .definition
      · subst own
        simp only [if_true]
        rw [load_save_eq_ok fun content => content]
        simp
      · simp [own]

/-- The second pass saves an object once more that has no copy yet and skips any other node. -/
theorem copyContents_cons_eq_ok :
    copyContents copies (node :: nodes) store = (.ok result, after) ↔
      ((∀ ref, node.content = some ref → ∃ copy, copies.contents.get? node.id = some copy) ∧
          copyContents copies nodes store = (.ok result, after)) ∨
        ∃ ref content, node.content = some ref ∧ copies.contents.get? node.id = none ∧
          store.records.objects.get? ref = some content ∧
            copyContents
              { copies with
                contents := copies.contents.insert node.id
                  ⟨(copies.rebind content).kind, ⟨store.records.lastObject + 1⟩⟩ }
              nodes (withCopy store (copies.rebind content)) = (.ok result, after) := by
  rw [copyContents]
  cases wraps : node.content with
  | none => simp
  | some ref =>
      cases copied : copies.contents.get? node.id with
      | some copy => simp [Table.contains, copied]
      | none =>
          simp only [Table.contains, copied, Option.isSome_none, Bool.false_eq_true, if_false]
          rw [load_save_eq_ok copies.rebind]
          simp

theorem copyDefinitions_spec (done : copyDefinitions copies nodes store = (.ok result, after)) :
    ObjectsOnly store.records after.records := by
  induction nodes generalizing copies store with
  | nil =>
      rcases pure_eq_ok.mp done with ⟨_, rfl⟩
      exact .refl
  | cons node rest ih =>
      rcases copyDefinitions_cons_eq_ok.mp done with ⟨_, done⟩ | ⟨_, content, _, _, done⟩
      · exact ih done
      · exact (ObjectsOnly.saveObject store.records content).trans (ih done)

/-- Every object that one of the nodes wraps has a copy afterwards. -/
theorem copyContents_spec (done : copyContents copies nodes store = (.ok result, after)) :
    ObjectsOnly store.records after.records ∧
      (∀ id ref, copies.contents.get? id = some ref → ∃ ref, result.contents.get? id = some ref) ∧
        ∀ node ∈ nodes, ∀ ref, node.content = some ref →
          ∃ ref, result.contents.get? node.id = some ref := by
  induction nodes generalizing copies store with
  | nil =>
      rcases pure_eq_ok.mp done with ⟨rfl, rfl⟩
      exact ⟨.refl, fun _ ref found => ⟨ref, found⟩, by simp⟩
  | cons node rest ih =>
      rcases copyContents_cons_eq_ok.mp done with ⟨handled, done⟩ | ⟨_, content, _, _, _, done⟩
      · rcases ih done with ⟨objects, kept, copied⟩
        refine ⟨objects, kept, fun other member ref wraps => ?_⟩
        rcases List.mem_cons.mp member with rfl | member
        · rcases handled ref wraps with ⟨old, found⟩
          exact kept _ old found
        · exact copied other member ref wraps
      · rcases ih done with ⟨objects, kept, copied⟩
        have saved := ObjectsOnly.saveObject store.records (copies.rebind content)
        refine ⟨saved.trans objects, ?_, ?_⟩
        · intro id old found
          by_cases same : node.id = id
          · exact kept id _ (by rw [Table.get?_insert, if_pos same])
          · exact kept id old (by rw [Table.get?_insert, if_neg same, found])
        · intro other member
          rcases List.mem_cons.mp member with rfl | member
          · intro _ _
            exact kept other.id _ (by rw [Table.get?_insert, if_pos rfl])
          · exact copied other member

end Passes

/-! ## Nodes -/

/-- The copies of the nodes above and below stand in the same relation as the nodes. -/
structure Placed (contents : Table NodeId ContentRef) (copied : Table NodeId NodeId)
    (records : Records) (node : Node) (parent owner : NodeId) (copy : Node) : Prop where
  above : node.parent = some parent
  copied_above : copied.get? parent = some owner
  entry : copied.get? node.id = some copy.id
  stored : records.nodes.get? copy.id = some copy
  below : copy.parent = some owner
  position : copy.position = node.position
  content : copy.content = contents.get? node.id

/-- Some nodes below a root have been copied; `copied` leads from each to its copy. -/
structure Copying (source : Records) (root : NodeId) (contents : Table NodeId ContentRef)
    (first : Node) (handled : List Node) (copied : Table NodeId NodeId) (records : Records) :
    Prop where
  linked : Linked records
  grown : Grown (fun _ => False) source records
  keys : ∀ {id copy}, copied.get? id = some copy → id = root ∨ id ∈ handled.map Node.id
  stored : ∀ {id copy}, copied.get? id = some copy →
    source.lastNode < copy.val ∧ ∃ node, records.nodes.get? copy = some node
  injective : ∀ {id other copy}, copied.get? id = some copy → copied.get? other = some copy →
    id = other
  covers : ∀ {copy node}, records.nodes.get? copy = some node → source.lastNode < copy.val →
    ∃ id, copied.get? id = some copy
  origin : copied.get? root = some first.id ∧ records.nodes.get? first.id = some first ∧
    first.parent = none ∧ first.position = 0 ∧ first.content = contents.get? root
  placed : ∀ node ∈ handled, ∃ parent owner copy,
    Placed contents copied records node parent owner copy
  positions : ∀ {id copy}, copied.get? id = some copy →
    (records.childList copy).map records.position? =
      (handled.filter fun node => decide (node.parent = some id)).map fun node =>
        some node.position

/-- The copy of the root begins the copying. -/
theorem Copying.start {source before records : Records} (root : NodeId) {node : Node}
    {contents : Table NodeId ContentRef} (linked : Linked before)
    (grown : Grown (fun _ => False) source before) (same : before.lastNode = source.lastNode)
    (saved : before.saveNode none 0 (contents.get? root) = .ok (node, records)) :
    Copying source root contents node [] (Table.insert .empty root node.id) records := by
  rcases saveNode_eq_ok.mp saved with ⟨_, _, rfl, rfl⟩
  have fresh : before.lastNode < before.lastNode + 1 := by omega
  have entry {id copy : NodeId}
      (found : (Table.insert .empty root ⟨before.lastNode + 1⟩).get? id = some copy) :
      id = root ∧ copy = ⟨before.lastNode + 1⟩ := by
    rcases Table.get?_insert_cases found with new | ⟨_, old⟩
    · exact new
    · cases old
  refine
    { linked := linked.insertNode fresh (fun _ impossible => by cases impossible)
        fun _ impossible => by cases impossible
      grown := grown.trans (.insertNode linked fresh fun _ impossible => by cases impossible)
        fun _ _ _ => id
      keys := fun found => .inl (entry found).1
      stored := ?_, injective := ?_, covers := ?_, origin := by simp, placed := by simp
      positions := ?_ }
  · intro id copy found
    rcases entry found with ⟨_, rfl⟩
    exact ⟨by simp only; omega, by simp⟩
  · intro id other copy found found'
    rw [(entry found).1, (entry found').1]
  · intro copy node found above
    rcases get?_insertNode_cases found with ⟨rfl, _⟩ | ⟨_, old⟩
    · exact ⟨root, by simp⟩
    · have bound := linked.numbered old
      omega
  · intro id copy found
    rcases entry found with ⟨_, rfl⟩
    rw [childList_insertNode, if_neg (by simp), linked.childList_eq_nil (linked.get?_fresh fresh)]
    rfl

section Step

variable {source before records : Records} {root : NodeId} {contents : Table NodeId ContentRef}
  {first : Node} {handled : List Node} {copied : Table NodeId NodeId} {node copy : Node}
  {parent owner : NodeId}

theorem Copying.absent (copying : Copying source root contents first handled copied before)
    (new : node.id ≠ root ∧ node.id ∉ handled.map Node.id) : copied.get? node.id = none := by
  cases found : copied.get? node.id with
  | none => rfl
  | some other =>
      rcases copying.keys found with same | member
      · exact absurd same new.1
      · exact absurd member new.2

theorem Copying.copy_le (copying : Copying source root contents first handled copied before)
    {id other : NodeId}
    (found : copied.get? id = some other) : other.val ≤ before.lastNode := by
  rcases copying.stored found with ⟨_, _, present⟩
  exact copying.linked.numbered present

/-- The children of a node are copied after the node. -/
theorem Copying.none_handled (copying : Copying source root contents first handled copied before)
    {id : NodeId}
    (absent : copied.get? id = none) :
    handled.filter (fun node => decide (node.parent = some id)) = [] := by
  refine List.filter_eq_nil_iff.mpr fun child member => ?_
  rcases copying.placed child member with ⟨above, owner, _, placed⟩
  simp only [placed.above, Option.some.injEq, decide_eq_true_eq]
  rintro rfl
  have entry := placed.copied_above
  rw [absent] at entry
  cases entry

/-- A new copy has no children yet, and no child of its original was copied. -/
theorem Copying.positions_copy (copying : Copying source root contents first handled copied before)
    (fresh : before.lastNode < copy.id.val) (below : copy.parent = some owner)
    (above : node.parent = some parent) (copied_above : copied.get? parent = some owner)
    (absent : copied.get? node.id = none) :
    ((before.insertNode copy).childList copy.id).map (before.insertNode copy).position? =
      ((handled ++ [node]).filter fun other => decide (other.parent = some node.id)).map
        fun other => some other.position := by
  have not_owner : ¬copy.parent = some copy.id := by
    rw [below]
    intro same
    have bound := copying.copy_le copied_above
    rw [Option.some.inj same] at bound
    omega
  have not_self : ¬node.parent = some node.id := by
    rw [above]
    intro same
    rw [Option.some.inj same, absent] at copied_above
    cases copied_above
  rw [childList_insertNode, if_neg not_owner,
    copying.linked.childList_eq_nil (copying.linked.get?_fresh fresh)]
  simp [copying.none_handled absent, not_self]

/-- A copy that was there before has one more child if it is the owner of the new one. -/
theorem Copying.positions_other (copying : Copying source root contents first handled copied before)
    (fresh : before.lastNode < copy.id.val) (below : copy.parent = some owner)
    (same_position : copy.position = node.position) (above : node.parent = some parent)
    (copied_above : copied.get? parent = some owner) {id other : NodeId}
    (found : copied.get? id = some other) :
    ((before.insertNode copy).childList other).map (before.insertNode copy).position? =
      ((handled ++ [node]).filter fun other => decide (other.parent = some id)).map
        fun other => some other.position := by
  have unchanged := positions_insertNode copying.linked fresh other
  have last : (before.insertNode copy).position? copy.id = some node.position := by
    simp [position?, same_position]
  rw [List.filter_append, List.map_append, childList_insertNode, below]
  by_cases here : id = parent
  · subst here
    rw [copied_above] at found
    rcases Option.some.inj found with rfl
    rw [if_pos rfl, List.map_append, unchanged, copying.positions copied_above]
    simp [above, last]
  · have differ : ¬(some owner = some other) := by
      intro same
      rcases Option.some.inj same with rfl
      exact here (copying.injective found copied_above)
    have skipped : ¬node.parent = some id := by
      rw [above]
      intro same
      exact here (Option.some.inj same).symm
    rw [if_neg differ, unchanged, copying.positions found]
    simp [skipped]

theorem Copying.step {ref : ContentRef} (source_linked : Linked source)
    (copying : Copying source root contents first handled copied before)
    (above : node.parent = some parent)
    (copied_above : copied.get? parent = some owner)
    (new : node.id ≠ root ∧ node.id ∉ handled.map Node.id)
    (content : contents.get? node.id = some ref)
    (saved : before.saveNode (some owner) node.position (some ref) = .ok (copy, records)) :
    Copying source root contents first (handled ++ [node]) (copied.insert node.id copy.id)
      records := by
  rcases saveNode_eq_ok.mp saved with ⟨stored, _, copy_eq, rfl⟩
  have linked := copying.linked
  have fresh : before.lastNode < copy.id.val := by
    rw [copy_eq]
    simp only
    omega
  have below : copy.parent = some owner := by rw [copy_eq]
  have same_position : copy.position = node.position := by rw [copy_eq]
  have absent := copying.absent new
  have opens : ∀ id, copy.parent = some id → id = owner := by simp [below]
  refine
    { linked := linked.insertNode fresh (below ▸ stored) fun _ _ => ⟨ref, by rw [copy_eq]⟩
      grown := ?_, keys := ?_, stored := ?_, injective := ?_, covers := ?_, origin := ?_
      placed := ?_, positions := ?_ }
  · have opened : Grown (· = owner) before (before.insertNode copy) :=
      .insertNode linked fresh opens
    refine copying.grown.trans opened ?_
    rintro id found present rfl
    have later := (copying.stored copied_above).1
    have bound := source_linked.numbered present
    omega
  · intro id other found
    rcases Table.get?_insert_cases found with ⟨rfl, _⟩ | ⟨_, found⟩
    · right
      simp
    · rcases copying.keys found with same | member
      · exact .inl same
      · right
        simp [member]
  · intro id other found
    rcases Table.get?_insert_cases found with ⟨rfl, rfl⟩ | ⟨_, found⟩
    · have grown := copying.grown.lastNode_le
      exact ⟨by omega, by simp⟩
    · rcases copying.stored found with ⟨later, present, present_found⟩
      exact ⟨later, present, linked.get?_insertNode_of_fresh fresh present_found⟩
  · intro id other copy' found found'
    rcases Table.get?_insert_cases found with ⟨rfl, rfl⟩ | ⟨_, found⟩
    · rcases Table.get?_insert_cases found' with ⟨rfl, _⟩ | ⟨_, found'⟩
      · rfl
      · have bound := copying.copy_le found'
        omega
    · rcases Table.get?_insert_cases found' with ⟨rfl, rfl⟩ | ⟨_, found'⟩
      · have bound := copying.copy_le found
        omega
      · exact copying.injective found found'
  · intro copy' found present later
    rcases get?_insertNode_cases present with ⟨rfl, _⟩ | ⟨_, old⟩
    · exact ⟨node.id, by simp⟩
    · rcases copying.covers old later with ⟨id, entry⟩
      exact ⟨id, Table.get?_insert_of_absent absent entry⟩
  · rcases copying.origin with ⟨entry, present, rest⟩
    exact ⟨Table.get?_insert_of_absent absent entry,
      (Grown.insertNode linked fresh opens).nodes present, rest⟩
  · intro other member
    rcases List.mem_append.mp member with member | member
    · rcases copying.placed other member with ⟨parent', owner', copy', placed⟩
      exact ⟨parent', owner', copy',
        { placed with
          copied_above := Table.get?_insert_of_absent absent placed.copied_above
          entry := Table.get?_insert_of_absent absent placed.entry
          stored := (Grown.insertNode linked fresh opens).nodes placed.stored }⟩
    · rcases List.mem_singleton.mp member with rfl
      refine ⟨parent, owner, copy,
        { above, copied_above := Table.get?_insert_of_absent absent copied_above, entry := by simp
          stored := by simp, below, position := same_position, content := ?_ }⟩
      rw [content, copy_eq]
  · intro id other found
    rcases Table.get?_insert_cases found with ⟨rfl, rfl⟩ | ⟨_, found⟩
    · exact copying.positions_copy fresh below above copied_above absent
    · exact copying.positions_other fresh below same_position above copied_above found

end Step

/-- A run over nodes below the root, each after its parent. -/
theorem Copying.run {source : Records} {root : NodeId} {copies : Copies} {first : Node}
    {handled rest : List Node} {copied : Table NodeId NodeId} {others : List Node}
    (source_linked : Linked source)
    (done : copyNodes root copies copied rest store = (.ok others, after))
    (copying : Copying source root copies.contents first handled copied store.records)
    (new : (root :: handled.map Node.id ++ rest.map Node.id).Nodup)
    (wrapped : ∀ node ∈ rest, ∃ ref, copies.contents.get? node.id = some ref) :
    ∃ copied, Copying source root copies.contents first (handled ++ rest) copied after.records := by
  induction rest generalizing handled copied store others with
  | nil =>
      rcases pure_eq_ok.mp done with ⟨_, rfl⟩
      exact ⟨copied, by simpa using copying⟩
  | cons node rest ih =>
      have not_root : node.id ≠ root := by
        rintro rfl
        simp at new
      have not_handled : node.id ∉ handled.map Node.id := by
        intro member
        have disjoint := (List.nodup_append.mp (List.nodup_cons.mp new).2).2.2
        exact disjoint _ member node.id (by simp) rfl
      rcases wrapped node (by simp) with ⟨ref, content⟩
      unfold copyNodes at done
      simp only [if_neg not_root, content] at done
      rcases bind_eq_ok.mp done with ⟨owner, first, given, done⟩
      rcases give_eq_ok.mp given with ⟨found, rfl⟩
      rcases bind_eq_ok.mp done with ⟨copy, middle, saved, done⟩
      rcases saveNode_eq_ok.mp saved with ⟨records, saved_node, rfl⟩
      rcases bind_eq_ok.mp done with ⟨others, last, copied_rest, done⟩
      rcases pure_eq_ok.mp done with ⟨_, rfl⟩
      unfold copiedParent at found
      cases above : node.parent with
      | none =>
          simp only [above] at found
          cases found
      | some parent =>
          simp only [above] at found
          cases copied_above : copied.get? parent with
          | none =>
              simp only [copied_above] at found
              cases found
          | some owner' =>
              simp only [copied_above] at found
              rcases Except.ok.inj found with rfl
              have next := copying.step source_linked above copied_above ⟨not_root, not_handled⟩
                content saved_node
              have result := ih copied_rest next (by simpa using new)
                fun other member => wrapped other (by simp [member])
              simpa using result

/-! ## The whole copy -/

/-- The listed nodes with a given parent are the stored children of this parent. -/
theorem perm_children {source : Records} {root id : NodeId} {nodes : List Node}
    (linked : Linked source) (listing : Listing source root nodes)
    (within : id = root ∨ source.Under root id) :
    (nodes.filter fun node => decide (node.parent = some id)).Perm
      ((source.childList id).filterMap source.nodes.get?) := by
  refine (List.perm_ext_iff_of_nodup ?_ ?_).mpr ?_
  · exact (listing.nodup.of_map Node.id).filter _
  · apply List.Nodup.of_map Node.id
    rw [linked.filterMap_ids (linked.present_children fun _ member => member)]
    exact linked.once id
  · intro child
    rw [List.mem_filter, List.mem_filterMap, decide_eq_true_iff, listing.mem_iff]
    constructor
    · rintro ⟨⟨found, _⟩, above⟩
      exact ⟨child.id, linked.listed found above, found⟩
    · rintro ⟨number, member, found⟩
      rcases linked.keyed found with rfl
      rcases linked.owned member with ⟨child', found', above⟩
      rw [found] at found'
      rcases Option.some.inj found' with rfl
      refine ⟨⟨found, ?_⟩, above⟩
      rcases within with rfl | under
      · exact .single member
      · exact under.tail member

/-- When everything below the root was copied, the positions of the children of a copy are those of
the children of its original. -/
theorem Copying.perm_positions {source records : Records} {root : NodeId}
    {contents : Table NodeId ContentRef} {first : Node} {handled : List Node}
    {copied : Table NodeId NodeId} (source_linked : Linked source)
    (copying : Copying source root contents first handled copied records)
    (listing : Listing source root handled) {id copy : NodeId}
    (entry : copied.get? id = some copy) :
    ((records.childList copy).map records.position?).Perm
      ((source.childList id).map source.position?) := by
  have within : id = root ∨ source.Under root id := by
    rcases copying.keys entry with same | member
    · exact .inl same
    · rcases List.mem_map.mp member with ⟨node, node_mem, rfl⟩
      exact .inr ((listing.mem_iff node).mp node_mem).2
  have all := (perm_children source_linked listing within).map fun node => some node.position
  rw [filterMap_positions (source_linked.present_children fun _ member => member)] at all
  rw [copying.positions entry]
  exact all

/-- When everything below the root was copied, the copies have contiguous children. -/
theorem Copying.tidy {source records : Records} {root : NodeId}
    {contents : Table NodeId ContentRef} {first : Node} {handled : List Node}
    {copied : Table NodeId NodeId} (source_tidy : Tidy source)
    (copying : Copying source root contents first handled copied records)
    (listing : Listing source root handled) : Tidy records := by
  refine ⟨copying.linked, fun parent => ?_⟩
  cases found : records.nodes.get? parent with
  | none =>
      unfold ContiguousAt
      rw [copying.linked.childList_eq_nil found]
      exact List.Perm.refl _
  | some node =>
      rcases copying.grown.newNodes found with old | new
      · apply (source_tidy.contiguous parent).congr
        · exact copying.grown.lists old id
        · intro id member
          rcases source_tidy.linked.owned member with ⟨child, child_found, _⟩
          simp [position?, child_found, copying.grown.nodes child_found]
      · rcases copying.covers found new with ⟨id, entry⟩
        have positions := copying.perm_positions source_tidy.linked listing entry
        have length := positions.length_eq
        rw [List.length_map, List.length_map] at length
        unfold ContiguousAt
        rw [length]
        exact positions.trans (source_tidy.contiguous id)

/-- Nodes below the root of a tree wrap objects. -/
theorem wrapping_listing {source : Records} {root : NodeId} {rest : List Node}
    (linked : Linked source) (listing : Listing source root rest) :
    ∀ child ∈ rest, ∃ parent ref, child.parent = some parent ∧ child.content = some ref := by
  intro child member
  rcases (listing.mem_iff child).mp member with ⟨found, under⟩
  rcases linked.under_stored under with ⟨child', parent, found', above⟩
  rw [found] at found'
  cases found'
  rcases linked.wrapping found above with ⟨ref, content⟩
  exact ⟨parent, ref, above, content⟩

/-- After the objects of a tree were copied, its nodes are copied one by one. -/
theorem Copying.of_copyNodes {source : Records} {root copy : Node} {rest others : List Node}
    {copies : Copies} (tidy : Tidy source) (objects : ObjectsOnly source store.records)
    (listing : Listing source root.id rest)
    (covered : ∀ node ∈ root :: rest, ∀ ref, node.content = some ref →
      ∃ ref, copies.contents.get? node.id = some ref)
    (done : copyNodes root.id copies .empty (root :: rest) store = (.ok (copy :: others), after)) :
    ∃ copied, Copying source root.id copies.contents copy rest copied after.records := by
  unfold copyNodes at done
  simp only [if_true] at done
  rcases bind_eq_ok.mp done with ⟨first, middle, saved, done⟩
  rcases saveNode_eq_ok.mp saved with ⟨records, saved_root, rfl⟩
  rcases bind_eq_ok.mp done with ⟨below, last, copied_below, done⟩
  rcases pure_eq_ok.mp done with ⟨same, rfl⟩
  cases same
  have begun := Copying.start root.id (objects.tidy tidy).linked (objects.grown tidy)
    objects.lastNode saved_root
  apply Copying.run tidy.linked copied_below begun (tidy.linked.nodup_whole listing)
  intro child member
  rcases wrapping_listing tidy.linked listing child member with ⟨_, ref, _, content⟩
  exact covered child (by simp [member]) ref content

theorem tidy_cloneTree {node copy : Node} (tidy : Tidy store.records)
    (stored : store.records.nodes.get? node.id = some node)
    (done : cloneTree node store = (.ok copy, after)) : Tidy after.records := by
  have done := transaction_eq_ok.mp done
  rcases bind_eq_ok.mp done with ⟨nodes, first, loaded, done⟩
  rcases fetch_eq_ok.mp loaded with ⟨found, rfl⟩
  rcases tidy.linked.subtree_eq stored with ⟨rest, subtree, listing⟩
  rw [found] at subtree
  rcases Except.ok.inj subtree with rfl
  rcases bind_eq_ok.mp done with ⟨definitions, second, copied_definitions, done⟩
  rcases bind_eq_ok.mp done with ⟨copies, third, copied_contents, done⟩
  have first_objects := copyDefinitions_spec copied_definitions
  rcases copyContents_spec copied_contents with ⟨second_objects, _, covered⟩
  rcases bind_eq_ok.mp done with ⟨copied_nodes, fourth, nodes, done⟩
  cases copied_nodes with
  | nil => exact absurd done throw_ne_ok
  | cons copy' others =>
      rcases pure_eq_ok.mp done with ⟨_, rfl⟩
      rcases Copying.of_copyNodes tidy (first_objects.trans second_objects) listing covered nodes
        with ⟨copied, copying⟩
      exact copying.tidy tidy listing

end RuleTree.Tree
