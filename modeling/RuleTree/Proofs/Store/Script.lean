import RuleTree.Proofs.Store.Steps

/-!
# Scripts of calls

A `Script` is anything that can be done with a store: calls, each chosen by the answers to those
before it, and transactions around further scripts, which are undone if they end with an error.
`Script.moments` lists the stores that a run passes through, those inside of transactions that are
undone included.  What every call keeps holds at each of them (`Script.holds_at_moments`), since a
transaction leads either to where its script ended or back to where it began.
-/

namespace RuleTree

open Store

variable {α β : Type} {store : Store}

/-- The calls that a store takes, by what each of them gives. -/
inductive Call : Type → Type 1 where
  | fetch {α : Type} (read : Records → Except StoreError α) : Call α
  | saveNode (parent : Option NodeId) (position : Nat) (content : Option ContentRef) : Call Node
  | saveObject (content : Content) : Call ContentRef
  | insertNode (node : Node) : Call Unit
  | insertObject (ref : ContentRef) (content : Content) : Call Unit
  | updatePosition (id : NodeId) (position : Nat) : Call Unit
  | deleteObject (ref : ContentRef) : Call Unit
  | deleteSubtree (root : NodeId) : Call Unit
  | refuse (ref : ContentRef) : Call Unit

/-- The call as a step on the store. -/
def Call.run : Call α → Action α
  | .fetch read => Store.fetch read
  | .saveNode parent position content => Store.saveNode parent position content
  | .saveObject content => Store.saveObject content
  | .insertNode node => write fun records => .ok ((), records.insertNode node)
  | .insertObject ref content => write fun records => .ok ((), records.insertObject ref content)
  | .updatePosition id position => Store.updatePosition id position
  | .deleteObject ref => Store.deleteObject ref
  | .deleteSubtree root => Store.deleteSubtree root
  | .refuse ref => fun store => (.ok (), { store with refused := ref :: store.refused })

/-- Calls and transactions, each of them followed by what its answer, a failure included, asks
for. -/
inductive Script : Type → Type 1 where
  | give {α : Type} (answer : Except Error α) : Script α
  | call {α β : Type} (made : Call α) (next : Except Error α → Script β) : Script β
  | transaction {α β : Type} (inner : Script α) (next : Except Error α → Script β) : Script β

namespace Script

/-- The script as a step on the store. -/
def run : {α : Type} → Script α → Action α
  | _, .give answer => fun store => (answer, store)
  | _, .call made next => fun store => (next (made.run store).1).run (made.run store).2
  | _, .transaction inner next => fun store =>
      (next (Store.transaction inner.run store).1).run (Store.transaction inner.run store).2

/-- The stores that the run of a script passes through, from the first to the last. -/
def moments : {α : Type} → Script α → Store → List Store
  | _, .give _, store => [store]
  | _, .call made next, store => store :: (next (made.run store).1).moments (made.run store).2
  | _, .transaction inner next, store =>
      inner.moments store ++ (next (Store.transaction inner.run store).1).moments
        (Store.transaction inner.run store).2

theorem start_mem_moments (script : Script α) (store : Store) : store ∈ script.moments store := by
  induction script generalizing store with
  | give answer => simp [moments]
  | call made next => simp [moments]
  | transaction inner next start _ => simp [moments, start]

theorem end_mem_moments (script : Script α) (store : Store) :
    (script.run store).2 ∈ script.moments store := by
  induction script generalizing store with
  | give answer => simp [run, moments]
  | call made next rest => simp [run, moments, rest]
  | transaction inner next _ rest => simp [run, moments, rest]

end Script

/-- A transaction leads to where its step ended, or it leaves the records as they were. -/
theorem Store.records_transaction (step : Action α) (store : Store) :
    (transaction step store).2.records = (step store).2.records ∨
      (transaction step store).2.records = store.records := by
  unfold transaction
  split
  · rename_i ended
    simp [ended]
  · simp

/--
What holds of the records at first, and after every call from records of which it holds, holds at
each moment of a run.  A call that leads to a store which the run passes through is all that has to
be considered.
-/
theorem Script.holds_at_moments {holds : Records → Prop} (passed : Store → Prop)
    (kept : ∀ {α : Type} (made : Call α) {store : Store}, holds store.records →
      passed (made.run store).2 → holds (made.run store).2.records)
    (script : Script α) (first : holds store.records)
    (passes : ∀ moment ∈ script.moments store, passed moment) :
    ∀ moment ∈ script.moments store, holds moment.records := by
  induction script generalizing store with
  | give answer => simpa [moments] using first
  | call made next rest =>
      simp only [moments, List.forall_mem_cons] at passes ⊢
      have reached : passed (made.run store).2 := passes.2 _ (start_mem_moments _ _)
      exact ⟨first, rest _ (kept made first reached) passes.2⟩
  | transaction inner next inside rest =>
      simp only [moments, List.forall_mem_append] at passes ⊢
      have within := inside first passes.1
      refine ⟨within, rest _ ?_ passes.2⟩
      -- A commit leaves the records of the last moment inside, a rollback those of the first one.
      rcases records_transaction inner.run store with committed | undone
      · rw [committed]
        exact within _ (end_mem_moments _ _)
      · rw [undone]
        exact first

end RuleTree
