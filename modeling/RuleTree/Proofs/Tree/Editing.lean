import RuleTree.Proofs.Store.Steps
import RuleTree.Proofs.Tree.Growth
import RuleTree.Proofs.Tree.Removal

/-!
# Editing keeps trees in order

Records are tidy when they are linked and the children of each node have the positions from zero on.
Building and moving keep them tidy step by step.  A deletion leaves a gap among the siblings, which
the renumbering after it closes.
-/

namespace RuleTree

open Step Store

namespace Records

/-- Linked records in which the children of each node have the positions from zero on. -/
structure Tidy (records : Records) : Prop where
  linked : Linked records
  contiguous : Contiguous records

theorem tidy_empty : Tidy empty := ⟨linked_empty, contiguous_empty⟩

variable {records before middle after : Records}

/-- A new root, or a new child at the position after the last one. -/
theorem Tidy.saveNode (tidy : Tidy before) {parent : Option NodeId} {position : Nat}
    {content : Option ContentRef} {node : Node}
    (saved : before.saveNode parent position content = .ok (node, after))
    (last : ∀ id, parent = some id → position = (before.childList id).length)
    (wrapping : ∀ id, parent = some id → ∃ ref, content = some ref) : Tidy after := by
  rcases saveNode_eq_ok.mp saved with ⟨stored, _, rfl, rfl⟩
  have fresh : before.lastNode < before.lastNode + 1 := by omega
  exact ⟨tidy.linked.insertNode fresh stored wrapping,
    tidy.contiguous.insertNode tidy.linked fresh last⟩

theorem Tidy.saveObject (tidy : Tidy records) (content : Content) :
    Tidy (records.insertObject ⟨content.kind, ⟨records.lastObject + 1⟩⟩ content) :=
  ⟨tidy.linked.insertObject (by simp only; omega) rfl, tidy.contiguous⟩

/-- Without an object there is less to say about objects, and nothing else changes. -/
theorem Tidy.eraseObject (tidy : Tidy records) (ref : ContentRef) :
    Tidy { records with objects := records.objects.erase ref } where
  linked :=
    { tidy.linked with
      addressed := by
        intro other content found
        simp only [Table.get?_erase] at found
        split at found
        · cases found
        · exact tidy.linked.addressed found
      positive := by
        intro other content found
        simp only [Table.get?_erase] at found
        split at found
        · cases found
        · exact tidy.linked.positive found }
  contiguous := tidy.contiguous

/-! ## New objects -/

/-- Objects were added and nothing else was changed. -/
structure ObjectsOnly (before after : Records) : Prop where
  tidy : Tidy before → Tidy after
  grown : ∀ {opened : NodeId → Prop}, Tidy before → Grown opened before after
  nodes : after.nodes = before.nodes
  children : after.children = before.children
  lastNode : after.lastNode = before.lastNode

theorem ObjectsOnly.refl : ObjectsOnly records records :=
  ⟨id, fun _ => .refl, rfl, rfl, rfl⟩

theorem ObjectsOnly.trans (left : ObjectsOnly before middle) (right : ObjectsOnly middle after) :
    ObjectsOnly before after where
  tidy before := right.tidy (left.tidy before)
  grown before := (left.grown before).trans (right.grown (left.tidy before)) fun _ _ _ => id
  nodes := right.nodes.trans left.nodes
  children := right.children.trans left.children
  lastNode := right.lastNode.trans left.lastNode

theorem ObjectsOnly.saveObject (records : Records) (content : Content) :
    ObjectsOnly records
      (records.insertObject ⟨content.kind, ⟨records.lastObject + 1⟩⟩ content) where
  tidy before := before.saveObject content
  grown before := .insertObject before.linked (by simp only; omega)
  nodes := rfl
  children := rfl
  lastNode := rfl

/-! ## New positions -/

/-- The same records with other positions of nodes. -/
structure Repositioned (place : NodeId → Nat → Nat) (before after : Records) : Prop where
  nodes : ∀ id, after.nodes.get? id = (before.nodes.get? id).map fun node =>
    { node with position := place id node.position }
  children : after.children = before.children
  objects : after.objects = before.objects
  lastNode : after.lastNode = before.lastNode
  lastObject : after.lastObject = before.lastObject

namespace Repositioned

variable {place : NodeId → Nat → Nat}

theorem childList (moved : Repositioned place before after) (parent : NodeId) :
    after.childList parent = before.childList parent := by
  unfold Records.childList
  rw [moved.children]

theorem position? (moved : Repositioned place before after) (id : NodeId) :
    after.position? id = (before.position? id).map (place id) := by
  unfold Records.position?
  rw [moved.nodes]
  cases before.nodes.get? id <;> rfl

theorem get?_eq_some (moved : Repositioned place before after) {id : NodeId} {node : Node}
    (found : after.nodes.get? id = some node) :
    ∃ old, before.nodes.get? id = some old ∧
      node = { old with position := place id old.position } := by
  rw [moved.nodes] at found
  rcases Option.map_eq_some_iff.mp found with ⟨old, old_found, rfl⟩
  exact ⟨old, old_found, rfl⟩

theorem linked (moved : Repositioned place before after) (linked : Linked before) :
    Linked after where
  keyed found := by
    rcases moved.get?_eq_some found with ⟨old, old_found, rfl⟩
    have same := linked.keyed old_found
    exact same
  numbered found := by
    rcases moved.get?_eq_some found with ⟨old, old_found, rfl⟩
    rw [moved.lastNode]
    exact linked.numbered old_found
  stored found above := by
    rcases moved.get?_eq_some found with ⟨old, old_found, rfl⟩
    rcases linked.stored old_found above with ⟨owner, owner_found⟩
    rw [moved.nodes, owner_found]
    exact ⟨_, rfl⟩
  rising found above := by
    rcases moved.get?_eq_some found with ⟨old, old_found, rfl⟩
    exact linked.rising old_found above
  listed found above := by
    rcases moved.get?_eq_some found with ⟨old, old_found, rfl⟩
    rw [moved.childList]
    exact linked.listed old_found above
  owned member := by
    rw [moved.childList] at member
    rcases linked.owned member with ⟨node, found, above⟩
    rw [moved.nodes, found]
    exact ⟨_, rfl, above⟩
  once parent := by
    rw [moved.childList]
    exact linked.once parent
  wrapping found above := by
    rcases moved.get?_eq_some found with ⟨old, old_found, rfl⟩
    rcases linked.wrapping old_found above with ⟨ref, content⟩
    exact ⟨ref, content⟩
  addressed found := by
    rw [moved.lastObject]
    rw [moved.objects] at found
    exact linked.addressed found
  counted := by
    rw [moved.lastObject]
    exact linked.counted
  positive found := by
    rw [moved.objects] at found
    exact linked.positive found

end Repositioned

/-- Where a renumbering puts a node: among the numbered ones by the order they are given in. -/
def placeFrom (first : Nat) (ordered : List NodeId) (id : NodeId) (position : Nat) : Nat :=
  if id ∈ ordered then first + ordered.idxOf id else position

theorem map_idxOf {ids : List NodeId} (distinct : ids.Nodup) :
    ids.map (ids.idxOf ·) = List.range ids.length := by
  apply List.ext_getElem
  · simp
  · intro index bound _
    rw [List.getElem_map, List.getElem_range, distinct.idxOf_getElem]

/-- The children that were numbered anew have the positions in the order they were given in. -/
theorem Repositioned.positions {parent : NodeId} {ordered : List NodeId}
    (moved : Repositioned (placeFrom 0 ordered) before after) (linked : Linked before)
    (same : ordered.Perm (before.childList parent)) :
    ordered.map after.position? = (List.range ordered.length).map some := by
  rw [← map_idxOf (same.nodup_iff.mpr (linked.once parent)), List.map_map]
  apply List.map_congr_left
  intro id member
  rcases linked.owned (same.subset member) with ⟨node, found, _⟩
  have position : before.position? id = some node.position := by
    simp [Records.position?, found]
  rw [moved.position?, position]
  simp [placeFrom, member]

/-- Whatever their positions were before, they are contiguous now. -/
theorem Repositioned.contiguousAt {parent : NodeId} {ordered : List NodeId}
    (moved : Repositioned (placeFrom 0 ordered) before after) (linked : Linked before)
    (same : ordered.Perm (before.childList parent)) : after.ContiguousAt parent := by
  unfold ContiguousAt
  rw [moved.childList, ← same.length_eq, ← moved.positions linked same]
  exact (same.map after.position?).symm

/-- Children of other nodes keep their positions. -/
theorem Repositioned.contiguousAt_other {parent other : NodeId} {ordered : List NodeId}
    (moved : Repositioned (placeFrom 0 ordered) before after) (linked : Linked before)
    (same : ∀ id ∈ ordered, id ∈ before.childList parent) (differ : other ≠ parent)
    (contiguous : before.ContiguousAt other) : after.ContiguousAt other := by
  apply contiguous.congr (moved.childList other)
  intro id member
  have outside : id ∉ ordered := by
    intro inside
    exact differ (linked.owner_unique member (same id inside))
  rw [moved.position?]
  cases before.position? id with
  | none => rfl
  | some position => simp [placeFrom, outside]

end Records

namespace Tree

open Records

/-- A renumbering of stored nodes succeeds and changes their positions only. -/
theorem renumberFrom_eq (first : Nat) {ordered : List NodeId} (store : Store)
    (linked : Linked store.records) (distinct : ordered.Nodup)
    (present : ∀ id ∈ ordered, ∃ node, store.records.nodes.get? id = some node) :
    ∃ records, renumberFrom first ordered store = (.ok (), { store with records := records }) ∧
      Repositioned (placeFrom first ordered) store.records records := by
  induction ordered generalizing first store with
  | nil =>
      refine ⟨store.records, rfl, ⟨fun id => ?_, rfl, rfl, rfl, rfl⟩⟩
      cases store.records.nodes.get? id <;> simp [placeFrom]
  | cons id rest ih =>
      rcases present id (by simp) with ⟨node, found⟩
      rcases List.nodup_cons.mp distinct with ⟨outside, distinct⟩
      let step : Records :=
        { store.records with
          nodes := store.records.nodes.insert id { node with position := first } }
      have updated : updatePosition id first store =
          (.ok (), { store with records := step }) :=
        updatePosition_eq_ok.mpr ⟨node, found, rfl⟩
      have moved : Repositioned (placeFrom first [id]) store.records step := by
        refine ⟨fun other => ?_, rfl, rfl, rfl, rfl⟩
        by_cases same : id = other
        · subst same
          simp [step, found, placeFrom]
        · have differ : other ≠ id := Ne.symm same
          cases other_found : store.records.nodes.get? other with
          | none => simp [step, same, other_found]
          | some old => simp [step, same, other_found, placeFrom, differ]
      have linked_step : Linked step := moved.linked linked
      have still_present : ∀ other ∈ rest, ∃ node, step.nodes.get? other = some node := by
        intro other member
        rcases present other (by simp [member]) with ⟨old, old_found⟩
        rw [moved.nodes, old_found]
        exact ⟨_, rfl⟩
      rcases ih (first + 1) { store with records := step } linked_step distinct still_present with
        ⟨records, renumbered, moved_rest⟩
      refine ⟨records, ?_, ?_⟩
      · rw [renumberFrom, bind_of_ok updated]
        exact renumbered
      · refine ⟨fun other => ?_, moved_rest.children.trans moved.children,
          moved_rest.objects.trans moved.objects, moved_rest.lastNode.trans moved.lastNode,
          moved_rest.lastObject.trans moved.lastObject⟩
        rw [moved_rest.nodes, moved.nodes]
        cases store.records.nodes.get? other with
        | none => rfl
        | some old =>
            simp only [Option.map_some, placeFrom, List.mem_cons, List.not_mem_nil, or_false]
            by_cases same : other = id
            · subst same
              simp [outside]
            · by_cases member : other ∈ rest
              · have shift : first + 1 + rest.idxOf other =
                    first + (id :: rest).idxOf other := by
                  rw [List.idxOf_cons_ne _ (Ne.symm same)]
                  omega
                simp [same, member, shift]
              · simp [same, member]

variable {store after : Store}

theorem tidy_attachChild {parent : NodeId} {content : ContentRef} {node : Node}
    (tidy : Tidy store.records)
    (done : attachChild parent content store = (.ok node, after)) : Tidy after.records := by
  unfold attachChild at done
  rcases bind_eq_ok.mp done with ⟨siblings, middle, loaded, done⟩
  rcases fetch_eq_ok.mp loaded with ⟨found, rfl⟩
  rcases saveNode_eq_ok.mp done with ⟨records, saved, rfl⟩
  rcases childrenOf_eq_ok.mp found with ⟨_, rfl⟩
  apply tidy.saveNode saved
  · intro id same
    rcases Option.some.inj same with rfl
    exact orderedChildren_perm.length_eq
  · exact fun _ _ => ⟨content, rfl⟩

theorem tidy_attachRoot {content : Option ContentRef} {node : Node} (tidy : Tidy store.records)
    (done : attachRoot content store = (.ok node, after)) : Tidy after.records := by
  rcases saveNode_eq_ok.mp done with ⟨records, saved, rfl⟩
  exact tidy.saveNode saved (fun _ impossible => by cases impossible)
    (fun _ impossible => by cases impossible)

theorem tidy_addRoot {content : Option Content} {node : Node} (tidy : Tidy store.records)
    (done : addRoot content store = (.ok node, after)) : Tidy after.records := by
  have done := transaction_eq_ok.mp done
  cases content with
  | none => exact tidy_attachRoot tidy done
  | some content =>
      rcases bind_eq_ok.mp done with ⟨ref, middle, saved, done⟩
      rcases saveObject_eq_ok.mp saved with ⟨rfl, rfl⟩
      have tidy_saved := tidy.saveObject content
      exact tidy_attachRoot tidy_saved done

theorem tidy_addChild {parent : NodeId} {content : Content} {node : Node}
    (tidy : Tidy store.records)
    (done : addChild parent content store = (.ok node, after)) : Tidy after.records := by
  have done := transaction_eq_ok.mp done
  rcases bind_eq_ok.mp done with ⟨ref, middle, saved, done⟩
  rcases saveObject_eq_ok.mp saved with ⟨rfl, rfl⟩
  exact tidy_attachChild (tidy.saveObject content) done

theorem moved_perm {item : NodeId} {items : List NodeId} (member : item ∈ items) (index : Nat) :
    (moved item index items).Perm items := by
  unfold moved
  refine (List.perm_insertIdx item (items.erase item) (Nat.min_le_right _ _)).trans ?_
  exact (List.perm_cons_erase member).symm

theorem repositioned_renumber {parent : NodeId} {ordered : List NodeId}
    (done : renumber ordered store = (.ok (), after)) (linked : Linked store.records)
    (same : ordered.Perm (store.records.childList parent)) :
    Repositioned (placeFrom 0 ordered) store.records after.records := by
  have present : ∀ id ∈ ordered, ∃ node, store.records.nodes.get? id = some node := by
    intro id member
    rcases linked.owned (same.subset member) with ⟨node, found, _⟩
    exact ⟨node, found⟩
  rcases renumberFrom_eq 0 store linked (same.nodup_iff.mpr (linked.once parent)) present with
    ⟨records, renumbered, moved⟩
  unfold renumber at done
  rw [renumbered] at done
  cases done
  exact moved

/-- Numbering the children of a node in any order makes their positions contiguous. -/
theorem tidy_renumber {parent : NodeId} {ordered : List NodeId}
    (done : renumber ordered store = (.ok (), after)) (linked : Linked store.records)
    (contiguous : ∀ other, other ≠ parent → store.records.ContiguousAt other)
    (same : ordered.Perm (store.records.childList parent)) : Tidy after.records := by
  have moved := repositioned_renumber done linked same
  refine ⟨moved.linked linked, fun other => ?_⟩
  by_cases here : other = parent
  · subst here
    exact moved.contiguousAt linked same
  · exact moved.contiguousAt_other linked (fun id member => same.subset member) here
      (contiguous other here)

/-- A move numbers the children of a node in some order. -/
theorem renumber_of_moveChild {parent child : NodeId} {index : Nat}
    (done : moveChild parent child index store = (.ok (), after)) :
    ∃ ordered middle, ordered.Perm (store.records.childList parent) ∧
      middle.records = store.records ∧ renumber ordered middle = (.ok (), after) := by
  have done := transaction_eq_ok.mp done
  rcases bind_eq_ok.mp done with ⟨siblings, middle, loaded, done⟩
  rcases fetch_eq_ok.mp loaded with ⟨found, rfl⟩
  rcases childrenOf_eq_ok.mp found with ⟨_, rfl⟩
  split at done
  · rename_i member
    have same := (moved_perm member index).trans orderedChildren_perm
    exact ⟨_, { store with fetches := store.fetches + 1 }, same, rfl, done⟩
  · exact absurd done throw_ne_ok

theorem tidy_moveChild {parent child : NodeId} {index : Nat} (tidy : Tidy store.records)
    (done : moveChild parent child index store = (.ok (), after)) : Tidy after.records := by
  rcases renumber_of_moveChild done with ⟨ordered, middle, same, unchanged, done⟩
  rw [← unchanged] at tidy same
  exact tidy_renumber done tidy.linked (fun other _ => tidy.contiguous other) same

/-! ## Deleting -/

/-- A step that reads and leaves the records as they are. -/
def ReadsOnly {α : Type} (step : Action α) : Prop := ∀ store, (step store).2.records = store.records

theorem ReadsOnly.of_ok {α : Type} {step : Action α} (reads : ReadsOnly step) {result : α}
    (done : step store = (.ok result, after)) : after.records = store.records := by
  have same := reads store
  rw [done] at same
  exact same

theorem readsOnly_fetch {α : Type} (read : Records → Except StoreError α) :
    ReadsOnly (fetch read) :=
  fun _ => rfl

theorem readsOnly_pure {α : Type} (value : α) : ReadsOnly (pure value : Action α) := fun _ => rfl

theorem ReadsOnly.bind {α β : Type} {step : Action α} {next : α → Action β}
    (first : ReadsOnly step) (second : ∀ value, ReadsOnly (next value)) :
    ReadsOnly (step >>= next) :=
  Keeps.bind first second

theorem readsOnly_namedDefinitions (referenced refs : List ContentRef) :
    ReadsOnly (namedDefinitions referenced refs) := by
  induction refs with
  | nil => exact readsOnly_pure _
  | cons ref rest ih =>
      unfold namedDefinitions
      split
      · refine (readsOnly_fetch _).bind fun content => ih.bind fun others => ?_
        split <;> exact readsOnly_pure _
      · exact ih

theorem readsOnly_unusedOtherwise (referenced refs : List ContentRef) :
    ReadsOnly (unusedOtherwise referenced refs) := by
  induction refs with
  | nil => exact readsOnly_pure _
  | cons ref rest ih =>
      unfold unusedOtherwise
      refine (readsOnly_fetch _).bind fun content => ?_
      split
      · refine (readsOnly_fetch _).bind fun attached => ?_
        split
        · exact ih
        · exact (readsOnly_fetch _).bind fun uses => ih.bind fun others => readsOnly_pure _
      · exact ih

theorem readsOnly_freeDefinitions (referenced : List ContentRef) :
    ReadsOnly (freeDefinitions referenced) :=
  (readsOnly_namedDefinitions _ _).bind fun _ => readsOnly_unusedOtherwise _ _

theorem deleteObjects_records {refs : List ContentRef}
    (done : deleteObjects refs store = (.ok (), after)) :
    after.records.nodes = store.records.nodes ∧ after.records.children = store.records.children ∧
      (Tidy store.records → Tidy after.records) := by
  induction refs generalizing store with
  | nil =>
      rcases pure_eq_ok.mp done with ⟨_, rfl⟩
      exact ⟨rfl, rfl, id⟩
  | cons ref rest ih =>
      rcases bind_eq_ok.mp done with ⟨_, middle, deleted, done⟩
      rcases deleteObject_eq_ok.mp deleted with ⟨_, _, rfl⟩
      rcases ih done with ⟨nodes, children, tidy⟩
      exact ⟨nodes, children, fun before => tidy (before.eraseObject ref)⟩

theorem tidy_deleteTree {node : Node} (tidy : Tidy store.records)
    (stored : store.records.nodes.get? node.id = some node)
    (done : deleteTree node store = (.ok (), after)) : Tidy after.records := by
  have done := transaction_eq_ok.mp done
  rcases bind_eq_ok.mp done with ⟨nodes, first, loaded, done⟩
  rcases fetch_eq_ok.mp loaded with ⟨_, rfl⟩
  rcases bind_eq_ok.mp done with ⟨free, second, freed, done⟩
  have unchanged := (readsOnly_freeDefinitions _).of_ok freed
  rcases bind_eq_ok.mp done with ⟨_, third, deleted, done⟩
  rcases deleteObjects_records deleted with ⟨same_nodes, same_children, tidy_third⟩
  rw [unchanged] at same_nodes same_children tidy_third
  have tidy_third := tidy_third tidy
  have stored_third : third.records.nodes.get? node.id = some node := by
    rw [same_nodes]
    exact stored
  rcases bind_eq_ok.mp done with ⟨_, fourth, taken, done⟩
  rcases deleteSubtree_eq_ok.mp taken with ⟨records, removed, rfl⟩
  rcases tidy_third.linked.removeSubtree_eq stored_third with ⟨records', removed', pruned⟩
  rw [removed] at removed'
  rcases Except.ok.inj removed' with rfl
  have linked := pruned.linked tidy_third.linked
  cases above : node.parent with
  | none =>
      rw [above] at done
      rcases pure_eq_ok.mp done with ⟨_, rfl⟩
      refine ⟨linked, fun parent => pruned.contiguousAt tidy_third.linked
        (tidy_third.contiguous parent) ?_⟩
      intro member
      rcases tidy_third.linked.owned member with ⟨node', found, owner⟩
      rw [stored_third] at found
      rcases Option.some.inj found with rfl
      rw [above] at owner
      cases owner
  | some parent =>
      rw [above] at done
      rcases bind_eq_ok.mp done with ⟨siblings, fifth, loaded, done⟩
      rcases fetch_eq_ok.mp loaded with ⟨found, rfl⟩
      rcases childrenOf_eq_ok.mp found with ⟨_, rfl⟩
      refine tidy_renumber done linked ?_ orderedChildren_perm
      intro other differ
      refine pruned.contiguousAt tidy_third.linked (tidy_third.contiguous other) ?_
      intro member
      exact differ (tidy_third.linked.owner_unique member
        (tidy_third.linked.listed stored_third above))

end Tree

end RuleTree
