import RuleTree.Proofs.Creation.Create
import RuleTree.Proofs.Tree.Cloning

/-!
# What holds of every store

`Reachable` is every store that comes out of the empty one by edits, creations and imports, in any
order, whether they succeed or fail.  The records of such a store are tidy, since every edit keeps
them tidy and a failure leaves them alone.  `Reachable.wellFormed` says what this means for the
nodes, the lists of children and the numbers.
-/

namespace RuleTree

open Step Store Records RuleTree.Tree Creation

/-- The stores that edits, creations and imports lead to.  A tree is copied or deleted by a node as
it is stored; which deletions of objects are refused may change at any time. -/
inductive Reachable : Store → Prop where
  | empty : Reachable Store.empty
  | addRoot {store : Store} (content : Option Content) :
      Reachable store → Reachable (addRoot content store).2
  | attachRoot {store : Store} (content : Option ContentRef) :
      Reachable store → Reachable (attachRoot content store).2
  | addChild {store : Store} (parent : NodeId) (content : Content) :
      Reachable store → Reachable (addChild parent content store).2
  | attachChild {store : Store} (parent : NodeId) (content : ContentRef) :
      Reachable store → Reachable (attachChild parent content store).2
  | moveChild {store : Store} (parent child : NodeId) (index : Nat) :
      Reachable store → Reachable (moveChild parent child index store).2
  | cloneTree {store : Store} (node : Node) :
      Reachable store → store.records.nodes.get? node.id = some node →
        Reachable (cloneTree node store).2
  | deleteTree {store : Store} (node : Node) :
      Reachable store → store.records.nodes.get? node.id = some node →
        Reachable (deleteTree node store).2
  | declareVariables {store : Store} (interface : Interface) :
      Reachable store → Reachable (interface.declareVariables store).2
  | create {store : Store} (functions : Option Library) (tree : Sketch)
      (version : Option Version) :
      Reachable store → Reachable (create functions tree version store).2
  | importDocument {store : Store} (functions : Option Library) (document : String)
      (version : Option Version) :
      Reachable store → Reachable (importDocument functions document version store).2
  | refuse {store : Store} (refused : List ContentRef) :
      Reachable store → Reachable { store with refused }

variable {store after : Store} {α β : Type}

/-! ## Failures -/

/-- A step that leaves the records alone when it fails. -/
def Harmless (step : Action α) : Prop :=
  ∀ store cause after, step store = (.error cause, after) → after.records = store.records

theorem harmless_write (update : Records → Except StoreError (α × Records)) :
    Harmless (write update) := by
  intro store cause after failed
  unfold write at failed
  split at failed
  · cases failed
  · rcases outcome_eq.mp failed with ⟨_, rfl⟩
    rfl

theorem harmless_transaction (step : Action α) : Harmless (transaction step) := by
  intro store cause after failed
  have undone := records_transaction_of_error (congrArg Prod.fst failed)
  rw [failed] at undone
  exact undone

/-- What only reads may come before a step that does no harm. -/
theorem Tree.ReadsOnly.bind_harmless {step : Action α} {next : α → Action β}
    (first : ReadsOnly step) (second : ∀ value, Harmless (next value)) :
    Harmless (step >>= next) := by
  intro store cause after failed
  have same := first store
  rcases outcome : step store with ⟨cause' | value, middle⟩
  · rw [outcome] at same
    rw [bind_of_error outcome] at failed
    rcases outcome_eq.mp failed with ⟨_, rfl⟩
    exact same
  · rw [outcome] at same
    rw [bind_of_ok outcome] at failed
    exact (second value _ _ _ failed).trans same

theorem harmless_create (functions : Option Library) (tree : Sketch) (version : Option Version) :
    Harmless (create functions tree version) :=
  Tree.ReadsOnly.bind_harmless (fun _ => rfl) fun _ => harmless_transaction _

theorem harmless_attachChild (parent : NodeId) (content : ContentRef) :
    Harmless (attachChild parent content) :=
  (readsOnly_fetch _).bind_harmless fun _ => harmless_write _

theorem harmless_importDocument (functions : Option Library) (document : String)
    (version : Option Version) : Harmless (importDocument functions document version) :=
  Tree.ReadsOnly.bind_harmless (fun _ => rfl) fun _ => harmless_create _ _ _

/-- What holds after every success holds after the step, if it held before. -/
theorem Harmless.preserves {holds : Records → Prop} {step : Action α} (harmless : Harmless step)
    (before : holds store.records)
    (success : ∀ {result after}, step store = (.ok result, after) → holds after.records) :
    holds (step store).2.records := by
  rcases outcome : step store with ⟨cause | result, after⟩
  · rw [harmless _ _ _ outcome]
    exact before
  · exact success outcome

theorem tidy_declareVariables {interface : Interface} {refs : List ContentRef}
    (tidy : Tidy store.records)
    (done : interface.declareVariables store = (.ok refs, after)) :
    Tidy after.records := by
  replace done := transaction_eq_ok.mp done
  generalize interface.declarations = entries at done
  induction entries generalizing store refs with
  | nil =>
      rcases pure_eq_ok.mp done with ⟨_, rfl⟩
      exact tidy
  | cons entry rest ih =>
      rcases bind_eq_ok.mp done with ⟨ref, middle, saved, done⟩
      rcases saveObject_eq_ok.mp saved with ⟨rfl, rfl⟩
      rcases bind_eq_ok.mp done with ⟨refs', last, others, done⟩
      rcases pure_eq_ok.mp done with ⟨_, rfl⟩
      have tidy_saved := tidy.saveObject (.definition entry.1 (some entry.2))
      exact ih tidy_saved others

/-! ## Whole runs -/

theorem Reachable.tidy (reachable : Reachable store) : Tidy store.records := by
  induction reachable with
  | empty => exact tidy_empty
  | addRoot content _ ih => exact (harmless_transaction _).preserves ih (tidy_addRoot ih)
  | attachRoot content _ ih => exact (harmless_write _).preserves ih (tidy_attachRoot ih)
  | addChild parent content _ ih => exact (harmless_transaction _).preserves ih (tidy_addChild ih)
  | attachChild parent content _ ih =>
      exact (harmless_attachChild _ _).preserves ih (tidy_attachChild ih)
  | moveChild parent child index _ ih =>
      exact (harmless_transaction _).preserves ih (tidy_moveChild ih)
  | cloneTree node _ stored ih =>
      exact (harmless_transaction _).preserves ih (tidy_cloneTree ih stored)
  | deleteTree node _ stored ih =>
      exact (harmless_transaction _).preserves ih (tidy_deleteTree ih stored)
  | declareVariables interface _ ih =>
      exact (harmless_transaction _).preserves ih (tidy_declareVariables ih)
  | create functions tree version _ ih =>
      exact (harmless_create _ _ _).preserves ih (tidy_create ih)
  | importDocument functions document version _ ih =>
      exact (harmless_importDocument _ _ _).preserves ih (tidy_importDocument ih)
  | refuse refused _ ih => exact ih

/-- The parent of a stored node, as the node has it. -/
def ParentOf (records : Records) (parent id : NodeId) : Prop :=
  ∃ node, records.nodes.get? id = some node ∧ node.parent = some parent

/-- Parents, lists of children, positions, objects and numbers of stored nodes fit together. -/
structure WellFormed (records : Records) : Prop where
  own_number : ∀ {id node}, records.nodes.get? id = some node → node.id = id
  parent_stored : ∀ {parent id}, ParentOf records parent id →
    ∃ above, records.nodes.get? parent = some above
  listed_once : ∀ {parent id}, ParentOf records parent id →
    (records.childList parent).count id = 1
  listed_nowhere_else : ∀ {parent id other}, ParentOf records parent id → other ≠ parent →
    id ∉ records.childList other
  entries : ∀ {parent id}, id ∈ records.childList parent → ParentOf records parent id
  acyclic : ∀ id, ¬Relation.TransGen (ParentOf records) id id
  positions : ∀ parent, (records.orderedChildren parent).map records.position? =
    (List.range (records.childList parent).length).map some
  wraps : ∀ {parent id node}, records.nodes.get? id = some node → node.parent = some parent →
    ∃ ref, node.content = some ref
  node_numbers : ∀ {id node}, records.nodes.get? id = some node → id.val ≤ records.lastNode
  object_numbers : ∀ {ref content}, records.objects.get? ref = some content →
    ref.id.val ≤ records.lastObject

theorem Linked.lt_of_parentOf {records : Records} (linked : Linked records) {above below : NodeId}
    (path : Relation.TransGen (ParentOf records) above below) : above.val < below.val := by
  induction path with
  | single step =>
      rcases step with ⟨node, found, parent⟩
      exact linked.rising found parent
  | tail _ step ih =>
      rcases step with ⟨node, found, parent⟩
      exact Int.lt_trans ih (linked.rising found parent)

/-- Whatever was done to the empty store, its trees are well formed. -/
theorem Reachable.wellFormed (reachable : Reachable store) : WellFormed store.records := by
  rcases reachable.tidy with ⟨linked, contiguous⟩
  refine
    { own_number := linked.keyed
      parent_stored := ?_, listed_once := ?_, listed_nowhere_else := ?_
      entries := linked.owned
      acyclic := ?_
      positions := fun parent => (contiguous parent).positions_orderedChildren
      wraps := linked.wrapping
      node_numbers := linked.numbered
      object_numbers := fun found => (linked.addressed found).1 }
  · rintro parent id ⟨node, found, above⟩
    exact linked.stored found above
  · rintro parent id ⟨node, found, above⟩
    exact List.count_eq_one_of_mem (linked.once parent) (linked.listed found above)
  · rintro parent id other ⟨node, found, above⟩ differ member
    exact differ (linked.owner_unique member (linked.listed found above))
  · intro id cycle
    exact absurd (Linked.lt_of_parentOf linked cycle) (Int.lt_irrefl _)

/-- A block with two statements and a copy of it, with the statements of the block exchanged. -/
theorem wellFormed_copy : WellFormed
    (moveChild ⟨1⟩ ⟨3⟩ 0
      (cloneTree ⟨⟨1⟩, none, 0, none⟩
        (addChild ⟨1⟩ (.text "b")
          (addChild ⟨1⟩ (.text "a")
            (addRoot none Store.empty).2).2).2).2).2.records := by
  have block : Reachable (addChild ⟨1⟩ (.text "b")
      (addChild ⟨1⟩ (.text "a") (addRoot none Store.empty).2).2).2 :=
    .addChild _ _ (.addChild _ _ (.addRoot none .empty))
  exact Reachable.wellFormed (.moveChild _ _ _ (.cloneTree _ block (by rfl)))

end RuleTree
