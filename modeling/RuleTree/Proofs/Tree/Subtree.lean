import RuleTree.Proofs.Tree.Linked
import Mathlib.Data.List.Forall2

/-!
# What lies below a node

Numbers rise from parents to children, so a walk down passes each list of children at most once and
`Records.depthBound` is never too small.  A listing of a subtree holds each node below the root
exactly once, and each after its parent.
-/

namespace RuleTree.Records

variable {records : Records}

/-- One node is listed as a child of another. -/
def ChildOf (records : Records) (parent id : NodeId) : Prop := id ∈ records.childList parent

/-- One node lies below another, one or more levels down. -/
def Under (records : Records) : NodeId → NodeId → Prop := Relation.TransGen records.ChildOf

/-! ## Depth -/

/-- How many lists of children a walk down from a node can still pass. -/
def listsBelow (records : Records) (id : NodeId) : Nat :=
  (records.children.keys.filter fun key => decide (id.val ≤ key.val)).length

theorem listsBelow_lt_depthBound (id : NodeId) : records.listsBelow id < records.depthBound := by
  unfold listsBelow depthBound Table.size
  have bound := List.length_filter_le (fun key => decide (id.val ≤ NodeId.val key))
    records.children.keys
  rw [Table.keys, List.length_map] at bound
  rw [Table.keys]
  omega

theorem mem_keys_of_childOf {parent id : NodeId} (child : records.ChildOf parent id) :
    parent ∈ records.children.keys := by
  unfold ChildOf childList at child
  cases found : records.children.get? parent with
  | none => simp [found] at child
  | some ids =>
      have entry := (records.children.mem_entries_iff parent ids).mpr found
      exact List.mem_map.mpr ⟨_, entry, rfl⟩

theorem Linked.listsBelow_lt (linked : Linked records) {parent id : NodeId}
    (child : records.ChildOf parent id) : records.listsBelow id < records.listsBelow parent := by
  have rising := linked.owner_lt child
  unfold listsBelow
  have inner : records.children.keys.filter (fun key => decide (id.val ≤ key.val)) =
      (records.children.keys.filter fun key => decide (parent.val ≤ key.val)).filter
        fun key => decide (id.val ≤ key.val) := by
    rw [List.filter_filter]
    apply List.filter_congr
    intro key _
    by_cases above : id.val ≤ key.val
    · simp [above]
      omega
    · simp [above]
  rw [inner]
  apply List.length_filter_lt_length_iff_exists.mpr
  refine ⟨parent, ?_, ?_⟩
  · simp [mem_keys_of_childOf child]
  · simp
    omega

/-! ## Ancestors -/

theorem Linked.lt_of_under (linked : Linked records) {above id : NodeId}
    (under : records.Under above id) : above.val < id.val := by
  induction under with
  | single child => exact linked.owner_lt child
  | tail _ child ih =>
      have step := linked.owner_lt child
      omega

theorem Linked.not_under_self (linked : Linked records) (id : NodeId) : ¬records.Under id id := by
  intro under
  have rising := linked.lt_of_under under
  omega

theorem Linked.le_of_reflTransGen (linked : Linked records) {above id : NodeId}
    (under : Relation.ReflTransGen records.ChildOf above id) : above.val ≤ id.val := by
  rcases Relation.reflTransGen_iff_eq_or_transGen.mp under with rfl | under
  · exact Int.le_refl _
  · exact Int.le_of_lt (linked.lt_of_under under)

theorem Linked.under_stored (linked : Linked records) {above id : NodeId}
    (under : records.Under above id) :
    ∃ node parent, records.nodes.get? id = some node ∧ node.parent = some parent := by
  rcases Relation.TransGen.tail'_iff.mp under with ⟨parent, _, child⟩
  rcases linked.owned child with ⟨node, found, below⟩
  exact ⟨node, parent, found, below⟩

/-- Whatever lies in the tree of a stored node is stored. -/
theorem Linked.within_stored (linked : Linked records) {root id : NodeId}
    (stored : ∃ node, records.nodes.get? root = some node)
    (within : Relation.ReflTransGen records.ChildOf root id) :
    ∃ node, records.nodes.get? id = some node := by
  rcases Relation.reflTransGen_iff_eq_or_transGen.mp within with rfl | under
  · exact stored
  · rcases linked.under_stored under with ⟨node, _, found, _⟩
    exact ⟨node, found⟩

/-- Nothing lies below two different children of one node. -/
theorem Linked.branch_unique (linked : Linked records) {parent left right id : NodeId}
    (left_child : records.ChildOf parent left) (right_child : records.ChildOf parent right)
    (left_under : Relation.ReflTransGen records.ChildOf left id)
    (right_under : Relation.ReflTransGen records.ChildOf right id) : left = right := by
  induction left_under with
  | refl =>
      rcases Relation.ReflTransGen.cases_tail right_under with same | ⟨middle, under, child⟩
      · exact same
      · rcases linked.owner_unique child left_child with rfl
        have back := linked.le_of_reflTransGen under
        have rising := linked.owner_lt right_child
        omega
  | tail under child ih =>
      rcases Relation.ReflTransGen.cases_tail right_under with rfl | ⟨middle, under', child'⟩
      · rcases linked.owner_unique child right_child with rfl
        have back := linked.le_of_reflTransGen under
        have rising := linked.owner_lt left_child
        omega
      · rcases linked.owner_unique child child' with rfl
        exact ih under'

/-! ## Listings -/

/-- Each node comes after its parent, given what came before the list. -/
def AfterParents : List NodeId → List Node → Prop
  | _, [] => True
  | seen, node :: rest =>
      (∃ parent ∈ seen, node.parent = some parent) ∧ AfterParents (node.id :: seen) rest

theorem AfterParents.mono {seen seen' : List NodeId} {nodes : List Node}
    (after : AfterParents seen nodes) (more : seen ⊆ seen') : AfterParents seen' nodes := by
  induction nodes generalizing seen seen' with
  | nil => trivial
  | cons node rest ih =>
      rcases after with ⟨⟨parent, parent_mem, above⟩, after⟩
      exact ⟨⟨parent, more parent_mem, above⟩, ih after (List.cons_subset_cons _ more)⟩

theorem AfterParents.append {seen : List NodeId} {front back : List Node}
    (first : AfterParents seen front) (second : AfterParents (front.map Node.id ++ seen) back) :
    AfterParents seen (front ++ back) := by
  induction front generalizing seen with
  | nil => simpa using second
  | cons node rest ih =>
      rcases first with ⟨above, first⟩
      refine ⟨above, ih first (second.mono ?_)⟩
      intro id member
      simp only [List.map_cons, List.cons_append, List.mem_cons, List.mem_append] at member ⊢
      tauto

/-- All nodes below a node, each once and each after its parent. -/
structure Listing (records : Records) (root : NodeId) (nodes : List Node) : Prop where
  mem_iff : ∀ node, node ∈ nodes ↔
    records.nodes.get? node.id = some node ∧ records.Under root node.id
  nodup : (nodes.map Node.id).Nodup
  after : AfterParents [root] nodes

section Whole

variable {root : Node} {rest : List Node} (listing : Listing records root.id rest)

include listing

/-- A stored node in front of its listing is the whole tree. -/
theorem Listing.mem_whole_iff {node : Node}
    (stored : records.nodes.get? root.id = some root) :
    node ∈ root :: rest ↔ records.nodes.get? node.id = some node ∧
      Relation.ReflTransGen records.ChildOf root.id node.id := by
  rw [List.mem_cons, listing.mem_iff]
  constructor
  · rintro (rfl | ⟨found, under⟩)
    · exact ⟨stored, .refl⟩
    · exact ⟨found, under.to_reflTransGen⟩
  · rintro ⟨found, within⟩
    rcases Relation.reflTransGen_iff_eq_or_transGen.mp within with same | under
    · rw [same, stored] at found
      exact .inl (Option.some.inj found).symm
    · exact .inr ⟨found, under⟩

/-- The nodes of a tree have different numbers. -/
theorem Linked.nodup_whole (linked : Linked records) : ((root :: rest).map Node.id).Nodup := by
  refine List.nodup_cons.mpr ⟨?_, listing.nodup⟩
  intro member
  rcases List.mem_map.mp member with ⟨node, node_mem, same⟩
  have under := ((listing.mem_iff node).mp node_mem).2
  rw [same] at under
  exact linked.not_under_self _ under

end Whole

theorem mapM_eq_some_iff {α β : Type} {f : α → Option β} {items : List α} {results : List β} :
    items.mapM f = some results ↔ List.Forall₂ (fun item result => f item = some result)
      items results := by
  induction items generalizing results with
  | nil => simp [eq_comm]
  | cons item rest ih =>
      rw [List.mapM_cons]
      cases first : f item with
      | none =>
          constructor
          · intro impossible
            cases impossible
          · rintro (_ | ⟨head, _⟩)
            rw [first] at head
            cases head
      | some value =>
          cases others : rest.mapM f with
          | none =>
              constructor
              · intro impossible
                cases impossible
              · rintro (_ | ⟨_, tail⟩)
                rw [ih.mpr tail] at others
                cases others
          | some values =>
              constructor
              · intro same
                cases same
                exact .cons first (ih.mp others)
              · rintro (_ | ⟨head, tail⟩)
                rw [first] at head
                rcases Option.some.inj head with rfl
                have same := ih.mpr tail
                rw [others] at same
                rcases Option.some.inj same with rfl
                rfl

theorem exists_forall₂ {α β : Type} {relates : α → β → Prop} {items : List α}
    (each : ∀ item ∈ items, ∃ result, relates item result) :
    ∃ results, List.Forall₂ relates items results := by
  induction items with
  | nil => exact ⟨[], .nil⟩
  | cons item rest ih =>
      rcases each item (by simp) with ⟨result, first⟩
      rcases ih fun other member => each other (by simp [member]) with ⟨results, others⟩
      exact ⟨result :: results, .cons first others⟩

theorem exists_of_forall₂ {α β : Type} {relates : α → β → Prop} {items : List α} {results : List β}
    (related : List.Forall₂ relates items results) {item : α} (member : item ∈ items) :
    ∃ result ∈ results, relates item result := by
  induction related with
  | nil => cases member
  | cons here _ ih =>
      rcases List.mem_cons.mp member with rfl | later
      · exact ⟨_, by simp, here⟩
      · rcases ih later with ⟨result, result_mem, below⟩
        exact ⟨result, by simp [result_mem], below⟩

theorem nodup_eraseDups {α : Type} [BEq α] [LawfulBEq α] : (items : List α) →
    items.eraseDups.Nodup
  | [] => List.nodup_nil
  | item :: rest => by
      rw [List.eraseDups_cons]
      refine List.nodup_cons.mpr ⟨?_, nodup_eraseDups _⟩
      simp [List.mem_eraseDups]
termination_by items => items.length
decreasing_by
  have shorter := List.length_filter_le (fun other => !other == item) rest
  simp only [List.length_cons]
  omega

/-! ## Children as records -/

theorem Linked.present_children (linked : Linked records) {root : NodeId} {ids : List NodeId}
    (children : ∀ id ∈ ids, records.ChildOf root id) :
    ∀ id ∈ ids, ∃ node, records.nodes.get? id = some node := by
  intro id member
  rcases linked.owned (children id member) with ⟨node, found, _⟩
  exact ⟨node, found⟩

/-- The children of a node as records, in any order that their numbers are given. -/
theorem Linked.filterMap_ids (linked : Linked records) {ids : List NodeId}
    (present : ∀ id ∈ ids, ∃ node, records.nodes.get? id = some node) :
    (ids.filterMap records.nodes.get?).map Node.id = ids := by
  induction ids with
  | nil => rfl
  | cons id rest ih =>
      rcases present id (by simp) with ⟨node, found⟩
      rw [List.filterMap_cons_some found, List.map_cons, linked.keyed found,
        ih fun other member => present other (by simp [member])]

theorem filterMap_positions {ids : List NodeId}
    (present : ∀ id ∈ ids, ∃ node, records.nodes.get? id = some node) :
    (ids.filterMap records.nodes.get?).map (fun node => some node.position) =
      ids.map records.position? := by
  induction ids with
  | nil => rfl
  | cons id rest ih =>
      rcases present id (by simp) with ⟨node, found⟩
      rw [List.filterMap_cons_some found, List.map_cons, List.map_cons,
        ih fun other member => present other (by simp [member])]
      simp [position?, found]

theorem Linked.after_children (linked : Linked records) {root : NodeId} {ids seen : List NodeId}
    (children : ∀ id ∈ ids, records.ChildOf root id) (root_mem : root ∈ seen) :
    AfterParents seen (ids.filterMap records.nodes.get?) := by
  induction ids generalizing seen with
  | nil => trivial
  | cons id rest ih =>
      rcases linked.owned (children id (by simp)) with ⟨node, found, above⟩
      rw [List.filterMap_cons_some found]
      refine ⟨⟨root, root_mem, above⟩, ih ?_ (by simp [root_mem])⟩
      exact fun other member => children other (by simp [member])

/-! ## Listings of the children -/

section Pieces

variable {root : NodeId} {ids : List NodeId} {pieces : List (List Node)}

theorem mem_pieces (listings : List.Forall₂ (Listing records) ids pieces) (node : Node) :
    node ∈ pieces.flatten ↔
      records.nodes.get? node.id = some node ∧ ∃ id ∈ ids, records.Under id node.id := by
  induction listings with
  | nil => simp
  | cons listing _ ih =>
      rw [List.flatten_cons, List.mem_append, listing.mem_iff, ih, ← and_or_left]
      simp

/-- No node is below two children of a node. -/
theorem Linked.nodup_pieces (linked : Linked records)
    (listings : List.Forall₂ (Listing records) ids pieces) (distinct : ids.Nodup)
    (children : ∀ id ∈ ids, records.ChildOf root id) :
    (pieces.flatten.map Node.id).Nodup := by
  induction listings with
  | nil => exact List.nodup_nil
  | @cons id piece ids pieces listing listings ih =>
      rcases List.nodup_cons.mp distinct with ⟨new, distinct⟩
      have later : ∀ other ∈ ids, records.ChildOf root other := fun other member =>
        children other (List.mem_cons_of_mem _ member)
      rw [List.flatten_cons, List.map_append]
      refine List.nodup_append.mpr ⟨listing.nodup, ih distinct later, ?_⟩
      intro number left_mem other right_mem
      rintro rfl
      rcases List.mem_map.mp left_mem with ⟨node, node_mem, rfl⟩
      rcases List.mem_map.mp right_mem with ⟨node', node_mem', same⟩
      have under := ((listing.mem_iff node).mp node_mem).2
      rcases ((mem_pieces listings node').mp node_mem').2 with ⟨branch, branch_mem, under'⟩
      rw [same] at under'
      have one := linked.branch_unique (children id (by simp)) (later branch branch_mem)
        under.to_reflTransGen under'.to_reflTransGen
      exact new (one ▸ branch_mem)

theorem after_pieces (listings : List.Forall₂ (Listing records) ids pieces) {seen : List NodeId}
    (known : ids ⊆ seen) : AfterParents seen pieces.flatten := by
  induction listings generalizing seen with
  | nil => trivial
  | @cons id piece ids pieces listing listings ih =>
      rcases List.cons_subset.mp known with ⟨first, later⟩
      refine (listing.after.mono (by simpa using first)).append (ih ?_)
      exact fun other member => List.mem_append_right _ (later member)

/-- The children from the last to the first and then what is below each of them. -/
theorem Linked.listing_of_pieces (linked : Linked records)
    (listings : List.Forall₂ (Listing records) (records.orderedChildren root) pieces) :
    Listing records root
      ((records.orderedChildren root).reverse.filterMap records.nodes.get? ++ pieces.flatten) := by
  have children : ∀ id ∈ records.orderedChildren root, records.ChildOf root id :=
    fun id member => mem_orderedChildren.mp member
  have backward : ∀ id ∈ (records.orderedChildren root).reverse, records.ChildOf root id :=
    fun id member => children id (List.mem_reverse.mp member)
  have distinct : (records.orderedChildren root).Nodup :=
    orderedChildren_perm.nodup_iff.mpr (linked.once root)
  have front_ids := linked.filterMap_ids (linked.present_children backward)
  refine { mem_iff := ?_, nodup := ?_, after := ?_ }
  · intro node
    rw [List.mem_append, List.mem_filterMap, mem_pieces listings]
    constructor
    · rintro (⟨id, member, found⟩ | ⟨found, id, member, under⟩)
      · have same := linked.keyed found
        subst same
        exact ⟨found, .single (backward _ member)⟩
      · exact ⟨found, .head (children id member) under⟩
    · rintro ⟨found, under⟩
      rcases Relation.TransGen.head'_iff.mp under with ⟨id, child, path⟩
      rcases Relation.reflTransGen_iff_eq_or_transGen.mp path with same | deeper
      · left
        subst same
        exact ⟨node.id, List.mem_reverse.mpr (mem_orderedChildren.mpr child), found⟩
      · right
        exact ⟨found, id, mem_orderedChildren.mpr child, deeper⟩
  · rw [List.map_append, front_ids]
    refine List.nodup_append.mpr
      ⟨List.nodup_reverse.mpr distinct, linked.nodup_pieces listings distinct children, ?_⟩
    intro id member other other_mem
    rintro rfl
    rcases List.mem_map.mp other_mem with ⟨node, node_mem, rfl⟩
    rcases ((mem_pieces listings node).mp node_mem).2 with ⟨branch, branch_mem, under⟩
    rcases linked.branch_unique (children branch branch_mem) (backward _ member)
      under.to_reflTransGen .refl with rfl
    exact linked.not_under_self _ under
  · refine (linked.after_children backward (by simp)).append (after_pieces listings ?_)
    rw [front_ids]
    intro id member
    simp [member]

end Pieces

theorem Linked.listing_below (linked : Linked records) {depth : Nat} {root : NodeId}
    (enough : records.listsBelow root < depth) :
    ∃ nodes, records.below depth root = some nodes ∧ Listing records root nodes := by
  induction depth generalizing root with
  | zero => omega
  | succ depth ih =>
      have each : ∀ id ∈ records.orderedChildren root, ∃ nodes,
          records.below depth id = some nodes ∧ Listing records id nodes := by
        intro id member
        have fewer := linked.listsBelow_lt (mem_orderedChildren.mp member)
        apply ih
        omega
      rcases exists_forall₂ each with ⟨pieces, both⟩
      have listings := both.imp fun _ _ pair => pair.2
      refine ⟨_, ?_, linked.listing_of_pieces listings⟩
      rw [below, mapM_eq_some_iff.mpr (both.imp fun _ _ pair => pair.1)]
      rfl

/-- The listing of a stored node is there and complete. -/
theorem Linked.subtree_eq (linked : Linked records) {root : Node}
    (stored : records.nodes.get? root.id = some root) :
    ∃ rest, records.subtree root.id = .ok (root :: rest) ∧ Listing records root.id rest := by
  rcases linked.listing_below (records.listsBelow_lt_depthBound root.id) with ⟨rest, found, listing⟩
  refine ⟨rest, ?_, listing⟩
  rw [subtree, stored]
  simp only [found]

/-- Whatever is listed is the tree of a stored node. -/
theorem Linked.listing_of_subtree (linked : Linked records) {id : NodeId} {nodes : List Node}
    (listed : records.subtree id = .ok nodes) :
    ∃ root rest, nodes = root :: rest ∧ root.id = id ∧
      records.nodes.get? root.id = some root ∧ Listing records root.id rest := by
  cases found : records.nodes.get? id with
  | none => simp [subtree, found] at listed
  | some root =>
      rcases linked.keyed found with rfl
      rcases linked.subtree_eq found with ⟨rest, whole, listing⟩
      rw [listed] at whole
      exact ⟨root, rest, Except.ok.inj whole, rfl, found, listing⟩

end RuleTree.Records
