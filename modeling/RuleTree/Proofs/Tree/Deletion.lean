import RuleTree.Proofs.Reading.Caching

/-!
# What a deletion takes away

A deletion removes a node with everything below it and the objects that these nodes wrap.  It also
removes the definitions that are freed by this: local ones that no node wraps, that something
removed uses and nothing else does.  `Reachable.deleteTree_exact` says that a deletion succeeds,
that it removes this much, and that of all the rest only the positions of the siblings change.
-/

namespace RuleTree

open Step Store

namespace Records

variable {before middle after records : Records} {root parent : NodeId}

/-- Some node of a subtree wraps the object. -/
def Referenced (records : Records) (root : NodeId) (ref : ContentRef) : Prop :=
  ∃ id node, records.Within root id ∧ records.nodes.get? id = some node ∧ node.content = some ref

/-- A local definition outside of all trees whose uses all lie in one subtree. -/
structure Freed (records : Records) (root : NodeId) (ref : ContentRef) : Prop where
  local_definition : ∃ name, records.objects.get? ref = some (.definition name none)
  unwrapped : ∀ {id node}, records.nodes.get? id = some node → node.content ≠ some ref
  used : ∃ use, records.Referenced root use ∧ records.objects.get? use = some (.use ref.id)
  only_there : ∀ {use}, records.objects.get? use = some (.use ref.id) →
    records.Referenced root use

/-- What a tree refers to is stored. -/
theorem Referenced.stored {ref : ContentRef} (referenced : records.Referenced root ref)
    (complete : Complete records) : ∃ content, records.objects.get? ref = some content := by
  rcases referenced with ⟨id, node, _, found, wraps⟩
  exact complete.contents found wraps

/-- The records without a tree, the objects it wraps and the definitions it frees. -/
structure Deleted (root : Node) (before after : Records) : Prop where
  nodes_gone : ∀ {id}, before.Within root.id id → after.nodes.get? id = none
  nodes_kept : ∀ {id}, ¬before.Within root.id id →
    (∀ parent, root.parent = some parent → id ∉ before.childList parent) →
      after.nodes.get? id = before.nodes.get? id
  siblings : ∀ {id parent}, root.parent = some parent → id ∈ before.childList parent →
    id ≠ root.id → ∃ node position, before.nodes.get? id = some node ∧
      after.nodes.get? id = some { node with position }
  order : ∀ {parent}, ¬before.Within root.id parent →
    after.orderedChildren parent = (before.orderedChildren parent).filter (· ≠ root.id)
  positions : ∀ parent, (after.orderedChildren parent).map after.position? =
    (List.range (after.orderedChildren parent).length).map some
  objects_gone : ∀ {ref}, before.Referenced root.id ref ∨ before.Freed root.id ref →
    after.objects.get? ref = none
  objects_kept : ∀ {ref}, ¬before.Referenced root.id ref → ¬before.Freed root.id ref →
    after.objects.get? ref = before.objects.get? ref
  lastNode : after.lastNode = before.lastNode
  lastObject : after.lastObject = before.lastObject

/-! ## What is asked of the records -/

theorem Linked.use_of_kind (linked : Linked records) {ref : ContentRef} {content : Content}
    (found : records.objects.get? ref = some content) (kind : ref.kind = .use) :
    ∃ definition, content = .use definition := by
  have same := (linked.addressed found).2
  rw [kind] at same
  cases content with
  | use definition => exact ⟨definition, rfl⟩
  | _ => cases same

theorem mem_usesOf {definition : ObjectId} {ref : ContentRef} :
    ref ∈ records.usesOf definition ↔ records.objects.get? ref = some (.use definition) := by
  unfold usesOf
  rw [List.mem_map, ← records.objects.mem_entries_iff]
  constructor
  · rintro ⟨⟨key, content⟩, member, rfl⟩
    rcases List.mem_filter.mp member with ⟨member, same⟩
    rcases of_decide_eq_true same with rfl
    exact member
  · intro member
    exact ⟨_, List.mem_filter.mpr ⟨member, by simp⟩, rfl⟩

theorem isAttached_iff {ref : ContentRef} : records.isAttached ref = true ↔
    ∃ id node, records.nodes.get? id = some node ∧ node.content = some ref := by
  unfold isAttached Table.values
  simp only [List.any_map, List.any_eq_true, Function.comp_apply, decide_eq_true_eq]
  constructor
  · rintro ⟨⟨id, node⟩, member, wraps⟩
    exact ⟨id, node, (records.nodes.mem_entries_iff id node).mp member, wraps⟩
  · rintro ⟨id, node, found, wraps⟩
    exact ⟨⟨id, node⟩, (records.nodes.mem_entries_iff id node).mpr found, wraps⟩

/-- The objects that the nodes of a listed subtree wrap. -/
theorem mem_contents_iff {node : Node} {rest : List Node}
    (linked : Linked records) (stored : records.nodes.get? node.id = some node)
    (listing : Listing records node.id rest) {ref : ContentRef} :
    ref ∈ (node :: rest).filterMap Node.content ↔ records.Referenced node.id ref := by
  rw [List.mem_filterMap]
  constructor
  · rintro ⟨other, member, wraps⟩
    rcases (listing.mem_whole_iff stored).mp member with ⟨found, within⟩
    exact ⟨other.id, other, within, found, wraps⟩
  · rintro ⟨id, other, within, found, wraps⟩
    rcases linked.keyed found with rfl
    exact ⟨other, (listing.mem_whole_iff stored).mpr ⟨found, within⟩, wraps⟩

end Records

/-! ## Finding what to delete -/

namespace Tree

open Records

variable {α β : Type} {records : Records} {step : Action α} {next : α → Action β}

/-- On the given records a step gives a value with a property and does nothing but fetch. -/
def Finds (records : Records) (step : Action α) (holds : α → Prop) : Prop :=
  ∀ store : Store, store.records = records → ∃ value fetches,
    step store = (.ok value, { store with fetches }) ∧ holds value

theorem Finds.pure {holds : α → Prop} {value : α} (found : holds value) :
    Finds records (pure value) holds :=
  fun store _ => ⟨value, store.fetches, rfl, found⟩

theorem Finds.fetch {read : Records → Except StoreError α} {value : α}
    (answer : read records = .ok value) : Finds records (Store.fetch read) (· = value) := by
  rintro store rfl
  exact ⟨value, store.fetches + 1, fetch_eq_ok.mpr ⟨answer, rfl⟩, rfl⟩

theorem Finds.bind {holds : α → Prop} {holds' : β → Prop} (first : Finds records step holds)
    (second : ∀ value, holds value → Finds records (next value) holds') :
    Finds records (step >>= next) holds' := by
  intro store same
  rcases first store same with ⟨value, fetches, done, found⟩
  rcases second value found { store with fetches } same with ⟨result, fetches', done', found'⟩
  exact ⟨result, fetches', (bind_of_ok done).trans done', found'⟩

theorem Finds.imp {holds holds' : α → Prop} (finds : Finds records step holds)
    (implies : ∀ value, holds value → holds' value) : Finds records step holds' := by
  intro store same
  rcases finds store same with ⟨value, fetches, done, found⟩
  exact ⟨value, fetches, done, implies value found⟩

theorem finds_loadObject {ref : ContentRef} {content : Content}
    (found : records.objects.get? ref = some content) :
    Finds records (loadObject ref) (· = content) :=
  .fetch (object_eq_ok.mpr found)

theorem finds_isAttached (ref : ContentRef) :
    Finds records (Store.isAttached ref) (· = records.isAttached ref) :=
  .fetch rfl

theorem finds_loadUsesOf (definition : ObjectId) :
    Finds records (loadUsesOf definition) (· = records.usesOf definition) :=
  .fetch rfl

/-- The definitions that some listed use names and that are not referenced themselves. -/
theorem finds_namedDefinitions (linked : Linked records) (referenced : List ContentRef)
    {refs : List ContentRef}
    (present : ∀ ref ∈ refs, ∃ content, records.objects.get? ref = some content) :
    Finds records (namedDefinitions referenced refs) fun named => ∀ ref, ref ∈ named ↔
      ref.kind = .definition ∧ ref ∉ referenced ∧
        ∃ use ∈ refs, records.objects.get? use = some (.use ref.id) := by
  induction refs with
  | nil => exact .pure (by simp)
  | cons use rest ih =>
      rcases present use (by simp) with ⟨content, found⟩
      have others := ih fun ref member => present ref (List.mem_cons_of_mem _ member)
      simp only [List.exists_mem_cons_iff, found]
      unfold namedDefinitions
      by_cases kind : use.kind = .use
      · rcases linked.use_of_kind found kind with ⟨definition, rfl⟩
        rw [if_pos kind]
        refine (finds_loadObject found).bind ?_
        rintro _ rfl
        refine others.bind fun names members => .pure fun ref => ?_
        have named : ref.kind = .definition → (ref = ⟨.definition, definition⟩ ↔
            definition = ref.id) := by
          rintro kind
          constructor
          · rintro rfl
            rfl
          · rintro rfl
            rw [← kind]
        by_cases listed : (⟨.definition, definition⟩ : ContentRef) ∈ referenced
        · simp only [listed, if_true, members]
          grind
        · simp only [listed, if_false, List.mem_cons, members]
          grind
      · rw [if_neg kind]
        refine others.imp fun names members ref => ?_
        have other : content ≠ .use ref.id := by
          rintro rfl
          exact kind (linked.addressed found).2.symm
        simp [members, other]

/-- A local definition that no node wraps and that only the given objects use. -/
structure Unused (records : Records) (referenced : List ContentRef) (ref : ContentRef) : Prop where
  local_definition : ∃ name, records.objects.get? ref = some (.definition name none)
  unwrapped : records.isAttached ref = false
  only_there : ∀ use ∈ records.usesOf ref.id, use ∈ referenced

theorem isLocalDefinition_iff {content : Content} :
    isLocalDefinition content = true ↔ ∃ name, content = .definition name none := by
  cases content with
  | definition name source => cases source <;> simp [isLocalDefinition]
  | _ => simp [isLocalDefinition]

theorem finds_unusedOtherwise (referenced : List ContentRef) {refs : List ContentRef}
    (present : ∀ ref ∈ refs, ∃ content, records.objects.get? ref = some content) :
    Finds records (unusedOtherwise referenced refs) fun free => ∀ ref, ref ∈ free ↔
      ref ∈ refs ∧ Unused records referenced ref := by
  induction refs with
  | nil => exact .pure (by simp)
  | cons definition rest ih =>
      rcases present definition (by simp) with ⟨content, found⟩
      have others := ih fun ref member => present ref (List.mem_cons_of_mem _ member)
      have skipped (needed : ¬Unused records referenced definition) (ref : ContentRef) :
          (ref ∈ rest ∧ Unused records referenced ref) ↔
            ref ∈ definition :: rest ∧ Unused records referenced ref := by
        rw [List.mem_cons]
        constructor
        · rintro ⟨member, unused⟩
          exact ⟨.inr member, unused⟩
        · rintro ⟨rfl | member, unused⟩
          · exact absurd unused needed
          · exact ⟨member, unused⟩
      unfold unusedOtherwise
      refine (finds_loadObject found).bind ?_
      rintro content rfl
      by_cases is_local : isLocalDefinition content = true
      · rw [if_pos is_local]
        refine (finds_isAttached definition).bind ?_
        rintro _ rfl
        by_cases attached : records.isAttached definition = true
        · rw [if_pos attached]
          refine others.imp fun free members ref => (members ref).trans (skipped ?_ ref)
          rintro ⟨_, unwrapped, _⟩
          simp [attached] at unwrapped
        · rw [if_neg attached]
          refine (finds_loadUsesOf definition.id).bind ?_
          rintro _ rfl
          refine others.bind fun free members => .pure fun ref => ?_
          by_cases unused : (records.usesOf definition.id).all (· ∈ referenced) = true
          · have free_too : Unused records referenced definition := by
              rcases isLocalDefinition_iff.mp is_local with ⟨name, rfl⟩
              exact ⟨⟨name, found⟩, by simpa using attached, by simpa using unused⟩
            rw [if_pos unused, List.mem_cons, List.mem_cons, members]
            grind
          · rw [if_neg unused, members]
            apply skipped
            rintro ⟨_, _, only⟩
            exact unused (by simpa using only)
      · rw [if_neg is_local]
        refine others.imp fun free members ref => (members ref).trans (skipped ?_ ref)
        rintro ⟨⟨name, same⟩, _, _⟩
        rw [found] at same
        rcases Option.some.inj same with rfl
        exact is_local rfl

theorem mem_mergeSort_distinct {refs : List ContentRef} {le : ContentRef → ContentRef → Bool}
    {ref : ContentRef} : ref ∈ (distinct refs).mergeSort le ↔ ref ∈ refs := by
  rw [(List.mergeSort_perm _ _).mem_iff]
  exact List.mem_eraseDups

/-- The candidates are the named definitions in some order, of which the unused ones are freed. -/
theorem mem_free_iff (linked : Linked records) {referenced named free : List ContentRef}
    (members : ∀ ref, ref ∈ named ↔ ref.kind = .definition ∧ ref ∉ referenced ∧
      ∃ use ∈ referenced, records.objects.get? use = some (.use ref.id))
    (free_iff : ∀ ref, ref ∈ free ↔
      ref ∈ (distinct named).mergeSort (fun a b => decide (a.id.val ≤ b.id.val)) ∧
        Unused records referenced ref) (ref : ContentRef) :
    ref ∈ free ↔ ref ∉ referenced ∧
      (∃ use ∈ referenced, records.objects.get? use = some (.use ref.id)) ∧
        Unused records referenced ref := by
  rw [free_iff, mem_mergeSort_distinct, members]
  constructor
  · rintro ⟨⟨_, new, used⟩, unused⟩
    exact ⟨new, used, unused⟩
  · rintro ⟨new, used, unused⟩
    rcases unused.local_definition with ⟨name, found⟩
    exact ⟨⟨(linked.addressed found).2.symm, new, used⟩, unused⟩

theorem finds_freeDefinitions (linked : Linked records) {referenced : List ContentRef}
    (present : ∀ ref ∈ referenced, ∃ content, records.objects.get? ref = some content)
    (defined : ∀ ref ∈ referenced, ∀ definition, records.objects.get? ref = some (.use definition) →
      ∃ content, records.objects.get? ⟨.definition, definition⟩ = some content) :
    Finds records (freeDefinitions referenced) fun free => ∀ ref, ref ∈ free ↔
      ref ∉ referenced ∧ (∃ use ∈ referenced, records.objects.get? use = some (.use ref.id)) ∧
        Unused records referenced ref := by
  refine (finds_namedDefinitions linked referenced present).bind fun named members => ?_
  refine (finds_unusedOtherwise referenced ?_).imp fun free free_iff =>
    mem_free_iff linked members free_iff
  intro ref member
  rcases (members ref).mp (mem_mergeSort_distinct.mp member) with ⟨kind, _, use, used, found⟩
  rcases defined use used _ found with ⟨content, definition_found⟩
  rw [← kind] at definition_found
  exact ⟨content, definition_found⟩

/-! ## Deleting it -/

theorem nodup_distinct (refs : List ContentRef) : (distinct refs).Nodup := nodup_eraseDups refs

/-- Stored objects that may be deleted are deleted, and no others. -/
theorem deleteObjects_eq {refs : List ContentRef} (store : Store) (allowed : store.refused = [])
    (distinct : refs.Nodup)
    (present : ∀ ref ∈ refs, ∃ content, store.records.objects.get? ref = some content) :
    ∃ objects, deleteObjects refs store =
        (.ok (), { store with records := { store.records with objects } }) ∧
      ∀ ref, objects.get? ref = if ref ∈ refs then none else store.records.objects.get? ref := by
  induction refs generalizing store with
  | nil => exact ⟨store.records.objects, rfl, by simp⟩
  | cons first rest ih =>
      rcases List.nodup_cons.mp distinct with ⟨new, distinct⟩
      have deleted : deleteObject first store = (.ok (), { store with records :=
          { store.records with objects := store.records.objects.erase first } }) := by
        rcases present first (by simp) with ⟨content, found⟩
        refine deleteObject_eq_ok.mpr ⟨by simp [allowed], ?_, rfl⟩
        simp [Table.contains, found]
      have still_present : ∀ ref ∈ rest, ∃ content,
          (store.records.objects.erase first).get? ref = some content := by
        intro ref member
        have differ : first ≠ ref := by
          rintro rfl
          exact new member
        rw [Table.get?_erase, if_neg differ]
        exact present ref (List.mem_cons_of_mem _ member)
      rcases ih { store with records :=
          { store.records with objects := store.records.objects.erase first } }
        allowed distinct still_present with ⟨objects, done, left⟩
      refine ⟨objects, ?_, fun ref => ?_⟩
      · rw [deleteObjects, bind_of_ok deleted]
        exact done
      · by_cases same : first = ref
        · simp [left, same]
        · simp [left, same, Ne.symm same]

end Tree

namespace Records

variable {before middle after : Records} {parent : NodeId}

/-- Children that stay keep their order. -/
theorem ContiguousAt.orderedChildren_filter {keep : NodeId → Bool}
    (contiguous : before.ContiguousAt parent)
    (list : after.childList parent = (before.childList parent).filter keep)
    (agree : ∀ id ∈ after.childList parent, after.position? id = before.position? id) :
    after.orderedChildren parent = (before.orderedChildren parent).filter keep := by
  have sorted : inOrder before.position? ((before.orderedChildren parent).filter keep) =
      (before.orderedChildren parent).filter keep :=
    inOrder_of_pairwise (inOrder_pairwise.filter keep)
  rw [← sorted]
  apply inOrder_eq_of_perm
  · rw [list]
    exact orderedChildren_perm.symm.filter keep
  · exact agree
  · rw [List.map_congr_left agree, list]
    exact contiguous.nodup_positions.sublist (List.filter_sublist.map _)

theorem Repositioned.orderedChildren_numbered {ordered : List NodeId}
    (moved : Repositioned (placeFrom 0 ordered) before after) (linked : Linked before)
    (same : ordered.Perm (before.childList parent)) : after.orderedChildren parent = ordered := by
  rw [← inOrder_of_positions (moved.positions linked same)]
  apply inOrder_eq_of_perm
  · rw [moved.childList]
    exact same.symm
  · exact fun _ _ => rfl
  · exact (moved.contiguousAt linked same).nodup_positions

theorem Linked.not_within_parent (linked : Linked before) {node : Node}
    (stored : before.nodes.get? node.id = some node) (above : node.parent = some parent) :
    ¬before.Within node.id parent := by
  intro path
  have back := linked.le_of_reflTransGen path
  have rising := linked.rising stored above
  omega

/-- The children that remain of a node outside of the removed tree are in their old order. -/
theorem Pruned.orderedChildren {root : NodeId} (pruned : Pruned root before middle)
    (tidy : Tidy before) (outside : ¬before.Within root parent) :
    middle.orderedChildren parent = (before.orderedChildren parent).filter (· ≠ root) := by
  apply (tidy.contiguous parent).orderedChildren_filter (pruned.kept outside).2
  intro id member
  rcases pruned.mem_childList.mp member with ⟨member, _, other⟩
  apply pruned.position?
  rw [Pruned.within_child tidy.linked member other]
  exact outside

theorem Linked.without_objects (linked : Linked before) {gone : List ContentRef}
    {objects : Table ContentRef Content}
    (left : ∀ ref, objects.get? ref = if ref ∈ gone then none else before.objects.get? ref) :
    Linked { before with objects } := by
  have fewer {ref : ContentRef} {content : Content} (found : objects.get? ref = some content) :
      before.objects.get? ref = some content := by
    rw [left] at found
    split at found
    · cases found
    · exact found
  exact
    { linked with
      addressed := fun found => linked.addressed (fewer found)
      positive := fun found => linked.positive (fewer found) }

section Assembly

variable {root : Node} {gone : List ContentRef} {objects : Table ContentRef Content}
  {ordered : List NodeId}

/-- A removal of objects, then the removal of a tree, then a renumbering of its siblings. -/
structure DeletionSteps (root : Node) (gone : List ContentRef) (ordered : List NodeId)
    (before : Records) (objects : Table ContentRef Content) (middle after : Records) : Prop where
  gone_iff : ∀ ref, ref ∈ gone ↔ before.Referenced root.id ref ∨ before.Freed root.id ref
  left : ∀ ref, objects.get? ref = if ref ∈ gone then none else before.objects.get? ref
  pruned : Pruned root.id { before with objects } middle
  moved : Repositioned (placeFrom 0 ordered) middle after
  siblings : ∀ parent, root.parent = some parent → ordered = middle.orderedChildren parent
  alone : root.parent = none → ordered = []

theorem DeletionSteps.deleted (steps : DeletionSteps root gone ordered before objects middle after)
    (tidy : Tidy before) (stored : before.nodes.get? root.id = some root)
    (tidy_after : Tidy after) : Deleted root before after := by
  rcases steps with ⟨gone_iff, left, pruned, moved, siblings, alone⟩
  have shrunk : Tidy { before with objects } := ⟨tidy.linked.without_objects left, tidy.contiguous⟩
  have outside {id : NodeId} (not_within : ¬before.Within root.id id) :
      middle.nodes.get? id = before.nodes.get? id := (pruned.kept not_within).1
  have mem_ordered {id : NodeId} (member : id ∈ ordered) :
      ∃ parent, root.parent = some parent ∧ id ∈ middle.childList parent := by
    cases above : root.parent with
    | none => simp [alone above] at member
    | some parent =>
        rw [siblings parent above] at member
        exact ⟨parent, rfl, mem_orderedChildren.mp member⟩
  constructor
  case nodes_gone =>
    intro id within
    rw [moved.nodes, (pruned.gone within).1]
    rfl
  case nodes_kept =>
    intro id not_within unrelated
    have unlisted : id ∉ ordered := by
      intro member
      rcases mem_ordered member with ⟨parent, above, child⟩
      exact unrelated parent above (pruned.mem_childList.mp child).1
    rw [moved.nodes, outside not_within]
    cases before.nodes.get? id <;> simp [placeFrom, unlisted]
  case siblings =>
    intro id parent above child other
    have not_within : ¬before.Within root.id id := by
      rw [Pruned.within_child tidy.linked child other]
      exact tidy.linked.not_within_parent stored above
    rcases tidy.linked.owned child with ⟨node, found, _⟩
    refine ⟨node, placeFrom 0 ordered id node.position, found, ?_⟩
    rw [moved.nodes, outside not_within, found]
    rfl
  case order =>
    intro parent not_within
    by_cases here : root.parent = some parent
    · have numbered := siblings parent here
      rw [moved.orderedChildren_numbered (pruned.linked shrunk.linked)
        (numbered ▸ orderedChildren_perm), numbered]
      exact pruned.orderedChildren shrunk not_within
    · apply (tidy.contiguous parent).orderedChildren_filter
      · rw [moved.childList]
        exact (pruned.kept not_within).2
      · intro id member
        rw [moved.childList] at member
        rcases pruned.mem_childList.mp member with ⟨child, _, other⟩
        have unlisted : id ∉ ordered := by
          intro listed
          rcases mem_ordered listed with ⟨owner, above, child'⟩
          have child' := (pruned.mem_childList.mp child').1
          rcases shrunk.linked.owner_unique child child' with rfl
          exact here above
        have stays : ¬before.Within root.id id := by
          rw [Pruned.within_child tidy.linked child other]
          exact not_within
        rw [moved.position?, pruned.position? stays]
        show (before.position? id).map _ = _
        cases before.position? id <;> simp [placeFrom, unlisted]
  case positions =>
    intro parent
    rw [(tidy_after.contiguous parent).positions_orderedChildren, orderedChildren_perm.length_eq]
  case objects_gone =>
    intro ref removed
    rw [moved.objects, pruned.objects, left, if_pos ((gone_iff ref).mpr removed)]
  case objects_kept =>
    intro ref not_referenced not_freed
    have kept : ref ∉ gone := by
      rw [gone_iff]
      simp [not_referenced, not_freed]
    rw [moved.objects, pruned.objects, left, if_neg kept]
  case lastNode => rw [moved.lastNode, pruned.lastNode]
  case lastObject => rw [moved.lastObject, pruned.lastObject]

end Assembly

end Records

namespace Tree

open Records

variable {store : Store} {node : Node} {rest : List Node}

/-- What is deleted are the objects that the nodes wrap and the definitions that these free. -/
theorem mem_removed_iff (linked : Linked store.records)
    (stored : store.records.nodes.get? node.id = some node)
    (listing : Listing store.records node.id rest) {referenced free : List ContentRef}
    (referenced_eq : referenced = distinct ((node :: rest).filterMap Node.content))
    (free_iff : ∀ ref, ref ∈ free ↔ ref ∉ referenced ∧
      (∃ use ∈ referenced, store.records.objects.get? use = some (.use ref.id)) ∧
        Unused store.records referenced ref) (ref : ContentRef) :
    ref ∈ distinct (referenced ++ free) ↔
      store.records.Referenced node.id ref ∨ store.records.Freed node.id ref := by
  have mem_referenced (ref : ContentRef) :
      ref ∈ referenced ↔ store.records.Referenced node.id ref := by
    rw [referenced_eq, ← mem_contents_iff linked stored listing]
    exact List.mem_eraseDups
  rw [distinct, List.mem_eraseDups, List.mem_append, free_iff, mem_referenced]
  constructor
  · rintro (wrapped | ⟨_, ⟨use, use_mem, used⟩, local_definition, unwrapped, only⟩)
    · exact .inl wrapped
    · refine .inr ⟨local_definition, ?_, ⟨use, (mem_referenced use).mp use_mem, used⟩, ?_⟩
      · intro id other found wraps
        have attached := isAttached_iff.mpr ⟨id, other, found, wraps⟩
        rw [unwrapped] at attached
        cases attached
      · intro other found
        exact (mem_referenced other).mp (only other (mem_usesOf.mpr found))
  · rintro (wrapped | ⟨local_definition, unwrapped, ⟨use, use_mem, used⟩, only⟩)
    · exact .inl wrapped
    · refine .inr ⟨?_, ⟨use, (mem_referenced use).mpr use_mem, used⟩, local_definition, ?_, ?_⟩
      · rintro ⟨id, other, _, found, wraps⟩
        exact unwrapped found wraps
      · by_contra attached
        rcases isAttached_iff.mp (by simpa using attached) with ⟨id, other, found, wraps⟩
        exact unwrapped found wraps
      · intro other listed
        exact (mem_referenced other).mpr (only (mem_usesOf.mp listed))

/-- The last step of a deletion numbers the siblings, if there is a parent. -/
theorem exists_closed (node : Node) (store : Store) (linked : Linked store.records)
    (present : ∀ parent, node.parent = some parent →
      ∃ above, store.records.nodes.get? parent = some above) :
    ∃ ordered records fetches,
      (match node.parent with
        | some parent => do renumber (← loadChildren parent)
        | none => pure () : Action Unit) store = (.ok (), { store with records, fetches }) ∧
      Repositioned (placeFrom 0 ordered) store.records records ∧
      (∀ parent, node.parent = some parent → ordered = store.records.orderedChildren parent) ∧
      (node.parent = none → ordered = []) := by
  cases above : node.parent with
  | none =>
      refine ⟨[], store.records, store.fetches, rfl, ⟨fun id => ?_, rfl, rfl, rfl, rfl⟩, ?_⟩
      · cases store.records.nodes.get? id <;> simp [placeFrom]
      · simp
  | some parent =>
      rcases present parent above with ⟨owner, owner_found⟩
      have loaded : loadChildren parent store = (.ok (store.records.orderedChildren parent),
          { store with fetches := store.fetches + 1 }) :=
        fetch_eq_ok.mpr ⟨childrenOf_eq_ok.mpr ⟨⟨owner, owner_found⟩, rfl⟩, rfl⟩
      have distinct : (store.records.orderedChildren parent).Nodup :=
        orderedChildren_perm.nodup_iff.mpr (linked.once parent)
      have children : ∀ id ∈ store.records.orderedChildren parent,
          store.records.ChildOf parent id := fun _ member => mem_orderedChildren.mp member
      rcases renumberFrom_eq 0 { store with fetches := store.fetches + 1 } linked distinct
          (linked.present_children children) with ⟨records, renumbered, moved⟩
      refine ⟨_, records, store.fetches + 1, (bind_of_ok loaded).trans renumbered, moved, ?_, ?_⟩
      · rintro _ ⟨⟩
        rfl
      · rintro ⟨⟩

/-- In a store that has what its nodes and its variables refer to, nothing stops a deletion that is
not refused. -/
theorem exists_deletionSteps (linked : Linked store.records) (complete : Complete store.records)
    (allowed : store.refused = []) (stored : store.records.nodes.get? node.id = some node) :
    ∃ after gone ordered objects middle, deleteTree node store = (.ok (), after) ∧
      DeletionSteps node gone ordered store.records objects middle after.records := by
  rcases linked.subtree_eq stored with ⟨rest, listed, listing⟩
  have present : ∀ ref ∈ distinct ((node :: rest).filterMap Node.content),
      ∃ content, store.records.objects.get? ref = some content := by
    intro ref member
    rw [distinct, List.mem_eraseDups, mem_contents_iff linked stored listing] at member
    exact member.stored complete
  rcases finds_freeDefinitions linked present (fun _ _ _ => complete.definitions)
    { store with fetches := store.fetches + 1 } rfl with ⟨free, fetches, freed, free_iff⟩
  have all_present : ∀ ref ∈ distinct (distinct ((node :: rest).filterMap Node.content) ++ free),
      ∃ content, store.records.objects.get? ref = some content := by
    intro ref member
    rcases List.mem_append.mp (List.mem_eraseDups.mp member) with wrapped | unused
    · exact present ref wrapped
    · rcases ((free_iff ref).mp unused).2.2.local_definition with ⟨name, found⟩
      exact ⟨_, found⟩
  rcases deleteObjects_eq { store with fetches } allowed (nodup_distinct _) all_present with
    ⟨objects, deleted, left⟩
  have shrunk := linked.without_objects left
  rcases shrunk.removeSubtree_eq stored with ⟨middle, removed, pruned⟩
  have parent_left : ∀ parent, node.parent = some parent →
      ∃ above, middle.nodes.get? parent = some above := by
    intro parent above
    rcases linked.stored stored above with ⟨owner, found⟩
    have outside := shrunk.not_within_parent stored above
    exact ⟨owner, (pruned.kept outside).1.trans found⟩
  have taken : deleteSubtree node.id
      { store with records := { store.records with objects }, fetches } =
        (.ok (), { store with records := middle, fetches }) :=
    deleteSubtree_eq_ok.mpr ⟨middle, removed, rfl⟩
  rcases exists_closed node { store with records := middle, fetches } (pruned.linked shrunk)
    parent_left with ⟨ordered, records, fetches', closed, moved, siblings, alone⟩
  refine ⟨{ store with records, fetches := fetches' }, _, ordered, objects, middle,
    transaction_eq_ok.mpr ?_,
    { gone_iff := mem_removed_iff linked stored listing rfl free_iff
      left, pruned, moved, siblings, alone }⟩
  refine (bind_of_ok (fetch_eq_ok.mpr ⟨listed, rfl⟩)).trans ?_
  refine (bind_of_ok freed).trans ((bind_of_ok deleted).trans ?_)
  exact (bind_of_ok taken).trans closed

end Tree

open Records RuleTree.Tree

/-- In a store that has what its nodes and its variables refer to, a deletion that is not refused
removes a tree with what only the tree needs, and closes the gap that the tree leaves. -/
theorem Reachable.deleteTree_exact {store : Store} {node : Node} (reachable : Reachable store)
    (complete : Complete store.records) (allowed : store.refused = [])
    (stored : store.records.nodes.get? node.id = some node) :
    ∃ after, Tree.deleteTree node store = (.ok (), after) ∧
      Deleted node store.records after.records := by
  have tidy := reachable.tidy
  rcases exists_deletionSteps tidy.linked complete allowed stored with
    ⟨after, gone, ordered, objects, middle, done, steps⟩
  exact ⟨after, done, steps.deleted tidy stored (tidy_deleteTree tidy stored done)⟩

/-- A tree of one variable, whose definition lies outside of the tree. -/
def oneVariable : Store :=
  (Creation.create none ⟨Sketch.dataOf .use [("name", .str "x")], []⟩ none Store.empty).2

theorem complete_oneVariable : Complete oneVariable.records := by
  have records : oneVariable.records =
      ⟨1, 2, Table.empty.insert ⟨1⟩ ⟨⟨1⟩, none, 0, some ⟨.use, ⟨2⟩⟩⟩, .empty,
        (Table.empty.insert ⟨.definition, ⟨1⟩⟩ (.definition "x" none)).insert ⟨.use, ⟨2⟩⟩
          (.use ⟨1⟩)⟩ := by rfl
  rw [records]
  exact .of_all (by rfl) (by rfl)

theorem deleteTree_exact_variable : ∃ node, Complete oneVariable.records ∧
    oneVariable.records.nodes.get? node.id = some node ∧
      ∃ after, deleteTree node oneVariable = (.ok (), after) ∧
        after.records.objects.get? ⟨.definition, ⟨1⟩⟩ = none := by
  have reachable : Reachable oneVariable := .create _ _ _ .empty
  have nodes : oneVariable.records.nodes =
      Table.empty.insert ⟨1⟩ ⟨⟨1⟩, none, 0, some ⟨.use, ⟨2⟩⟩⟩ := by rfl
  have objects : oneVariable.records.objects =
      (Table.empty.insert ⟨.definition, ⟨1⟩⟩ (.definition "x" none)).insert ⟨.use, ⟨2⟩⟩
        (.use ⟨1⟩) := by rfl
  let node : Node := ⟨⟨1⟩, none, 0, some ⟨.use, ⟨2⟩⟩⟩
  have stored : oneVariable.records.nodes.get? node.id = some node := by simp [node, nodes]
  rcases reachable.deleteTree_exact complete_oneVariable rfl stored with ⟨after, done, deleted⟩
  refine ⟨node, complete_oneVariable, stored, after, done, deleted.objects_gone (.inr ?_)⟩
  constructor
  · exact ⟨"x", by simp [objects]⟩
  · intro id node found
    rw [nodes, Table.get?_insert] at found
    split at found
    · cases found
      decide
    · cases found
  · exact ⟨⟨.use, ⟨2⟩⟩, ⟨_, _, .refl, stored, rfl⟩, by simp [objects]⟩
  · intro use found
    rw [objects, Table.get?_insert] at found
    split at found
    · rename_i same
      exact ⟨_, _, .refl, stored, congrArg some same⟩
    · rw [Table.get?_insert] at found
      split at found <;> cases found

end RuleTree
