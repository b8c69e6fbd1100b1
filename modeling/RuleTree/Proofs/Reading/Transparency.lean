import RuleTree.Proofs.Reading.Caching
import Mathlib

/-!
# Trees read through a snapshot and node by node

In a complete store it makes no difference to a tree which way it is read
(`Reachable.cache_irrelevant`).  This leaves two things that do make a difference (`cache_tells`).
A function may ask its context how trees are read.  And a tree that is deleted by a record that is
not the one in the store may leave a gap between its siblings, so that the next of them gets a
position that is taken; siblings with one position are in another order in a snapshot.
-/

namespace RuleTree

open Step Records Reading

/-- In a complete store, reading through a snapshot or node by node makes no difference to the value
of a tree, to the context after its evaluation or to its document.  Nor does it make a difference to
value and bindings which of the two the context itself asks for, as long as this is nothing to the
functions. -/
theorem Reachable.cache_irrelevant [Host] {store : Store} (reachable : Reachable store)
    (complete : Complete store.records) {node : Node}
    (stored : store.records.nodes.get? node.id = some node) (context : Context) :
    ((interpretWith store.records .cached node context).1 =
        (interpretWith store.records .direct node context).1 ∧
      (interpretWith store.records .cached node context).2.1 =
        (interpretWith store.records .direct node context).2.1) ∧
    (context.library.Heedless →
      (interpret store.records node { context with cache := true }).1 =
        (interpret store.records node { context with cache := false }).1 ∧
      (interpret store.records node { context with cache := true }).2.1.bindings =
        (interpret store.records node { context with cache := false }).2.1.bindings) ∧
    ∀ ids, (Block.build store.records .cached ids node Reading.start).1 =
      (Block.build store.records .direct ids node Reading.start).1 := by
  have tidy := reachable.tidy
  have sound := complete.sound stored
  refine ⟨interpretWith_cached inseparable_eq tidy sound rfl, fun heedless => ?_, fun ids => ?_⟩
  · have tied : Context.SameButCache { context with cache := true }
        { context with cache := false } := ⟨rfl, rfl, heedless⟩
    rcases interpretWith_cached inseparable_sameButCache tidy sound tied with ⟨values, left⟩
    exact ⟨values, left.bindings⟩
  · rcases Block.alike_build tidy ids sound Reading.start Reading.start Snapshot.faithful_empty with
      ⟨_, texts⟩
    exact texts.eq fun _ _ agree => agree

/-- A block that declares a variable, assigns it a value and then makes an assignment that lacks its
children. -/
def failingStore : Store :=
  let child (parent : NodeId) (content : Content) (store : Store) :=
    (Tree.addChild parent content store).2
  child ⟨1⟩ .assignment (child ⟨3⟩ (.boolean true) (child ⟨3⟩ (.use ⟨1⟩) (child ⟨1⟩ .assignment
    (child ⟨1⟩ (.definition "x" none) (Tree.addRoot none Store.empty).2))))

/-- The evaluation fails, and the first assignment stays, whichever way the tree is read. -/
theorem cache_irrelevant_failing : ∃ root, Reachable failingStore ∧
    Complete failingStore.records ∧ failingStore.records.nodes.get? root.id = some root ∧
      Builtin.library.Heedless ∧ ∀ cache,
        (interpret failingStore.records root { Context.fresh with cache }).1 =
            .error (.evaluation (.arity .assignment 2 0)) ∧
          (interpret failingStore.records root { Context.fresh with cache }).2.1.bindings =
            Table.empty.insert ⟨1⟩ (.bool true) := by
  let root : Node := ⟨⟨1⟩, none, 0, none⟩
  have reachable : Reachable failingStore :=
    .addChild _ _ (.addChild _ _ (.addChild _ _ (.addChild _ _ (.addChild _ _
      (.addRoot none .empty)))))
  have complete : Complete failingStore.records := .of_all (by cbv) (by cbv)
  have stored : failingStore.records.nodes.get? root.id = some root := by cbv
  have heedless := Builtin.detached_library.heedless
  have value (library : Library) : (evaluate failingStore.records .direct library root
      ⟨Reading.start, ⟨.empty, false, library⟩⟩).1 =
        .error (.evaluation (.arity .assignment 2 0)) := by cbv
  have bindings (library : Library) : (evaluate failingStore.records .direct library root
      ⟨Reading.start, ⟨.empty, false, library⟩⟩).2.context.bindings =
        Table.empty.insert ⟨1⟩ (.bool true) := by cbv
  rcases (reachable.cache_irrelevant complete stored Context.fresh).2.1 heedless with
    ⟨same_value, same_bindings⟩
  refine ⟨root, reachable, complete, stored, heedless, fun cache => ?_⟩
  cases cache with
  | false => exact ⟨value Builtin.library, bindings Builtin.library⟩
  | true =>
      exact ⟨same_value.trans (value Builtin.library),
        same_bindings.trans (bindings Builtin.library)⟩

/-! ## What does make a difference -/

/-- A program that keeps one function, which says how trees are read. -/
@[reducible]
def tellingHost : Host := ⟨fun _ _ context => (.ok (.bool context.cache), context)⟩

def tellingLibrary : Library := Library.ofFunctions [.named "cached" [] (.withContext ⟨0⟩)]

/-- A call of that function. -/
def tellingStore : Store := (Tree.addRoot (some (.call "cached")) Store.empty).2

/-- A block whose first child was deleted by a record without a parent, so that the position of the
other was not put right, and that was given a third child then. -/
def overtakenStore : Store :=
  let child (content : Content) (store : Store) := (Tree.addChild ⟨1⟩ content store).2
  let two := child (.boolean true) (child (.text "a") (Tree.addRoot none Store.empty).2)
  child (.boolean false) (Tree.deleteTree ⟨⟨2⟩, none, 0, none⟩ two).2

/-- A block gives the list of the values of its children. -/
theorem Evaluation.fst_block [Host] {records : Records} {access : Access} {depth : Nat}
    {node : Node} {context : Context} {children : List Node} {values : List Value}
    {reading : Reading} (bare : node.content = none) (isRoot : node.parent = none)
    (listed : Reading.children records access node Reading.start = (.ok children, reading))
    (evaluated : (results (Evaluation.node records access depth) children ⟨reading, context⟩).1 =
      .ok values) :
    (Evaluation.node records access (depth + 1) node ⟨Reading.start, context⟩).1 =
      .ok (.list values) := by
  have root : node.isRoot = true := by simp [Node.isRoot, isRoot]
  have no_content : Reading.content records access node = pure none := by
    cases access <;> simp only [Reading.content, Reading.cachedContent, bare]
  have read_children : read (Reading.children records access node) ⟨Reading.start, context⟩ =
      (.ok children, ⟨reading, context⟩) := by
    unfold read
    rw [listed]
  rcases outcome : results (Evaluation.node records access depth) children ⟨reading, context⟩ with
    ⟨answer, after⟩
  rw [outcome] at evaluated
  cases evaluated
  have bare_read : read (Reading.content records access node) ⟨Reading.start, context⟩ =
      (.ok none, ⟨Reading.start, context⟩) := by
    rw [no_content]
    rfl
  unfold Evaluation.node
  rw [bind_of_ok bare_read]
  simp only [root, if_true]
  rw [bind_of_ok read_children, bind_of_ok outcome]
  rfl

/-- A function can tell how a tree is read, and so can the order of children that have one
position. -/
theorem cache_tells :
    (Reachable tellingStore ∧ Complete tellingStore.records ∧ ∃ node,
      tellingStore.records.nodes.get? node.id = some node ∧ ∀ cache,
        (@interpret tellingHost tellingStore.records node ⟨.empty, cache, tellingLibrary⟩).1 =
          .ok (.bool cache)) ∧
    (Complete overtakenStore.records ∧ ∃ node,
      overtakenStore.records.nodes.get? node.id = some node ∧
        (interpret overtakenStore.records node { Context.fresh with cache := true }).1 =
          .ok (.list [.bool false, .bool true]) ∧
        (interpret overtakenStore.records node { Context.fresh with cache := false }).1 =
          .ok (.list [.bool true, .bool false])) := by
  let first : Node := ⟨⟨3⟩, some ⟨1⟩, 1, some ⟨.boolean, ⟨2⟩⟩⟩
  let second : Node := ⟨⟨4⟩, some ⟨1⟩, 1, some ⟨.boolean, ⟨3⟩⟩⟩
  let root : Node := ⟨⟨1⟩, none, 0, none⟩
  let records : Records :=
    ⟨4, 3, ((Table.empty.insert ⟨1⟩ root).insert ⟨3⟩ first).insert ⟨4⟩ second,
      Table.empty.insert ⟨1⟩ [⟨3⟩, ⟨4⟩],
      (Table.empty.insert ⟨.boolean, ⟨2⟩⟩ (.boolean true)).insert ⟨.boolean, ⟨3⟩⟩ (.boolean false)⟩
  let snapshot : Snapshot :=
    ⟨records.nodes, ((Table.empty.insert ⟨1⟩ [⟨4⟩, ⟨3⟩]).insert ⟨3⟩ []).insert ⟨4⟩ [],
      records.objects, (Table.empty.insert ⟨.boolean, ⟨2⟩⟩ ⟨3⟩).insert ⟨.boolean, ⟨3⟩⟩ ⟨4⟩⟩
  have overtaken : overtakenStore.records = records := by cbv
  refine ⟨⟨.addRoot _ .empty, .of_all (by cbv) (by cbv),
    ⟨⟨1⟩, none, 0, some ⟨.call, ⟨1⟩⟩⟩, by cbv, fun cache => ?_⟩,
    .of_all (by cbv) (by cbv), root, by cbv, ?_, ?_⟩
  · cases cache <;> cbv
  · rw [overtaken]
    have listed : Reading.children records .cached root Reading.start =
        (.ok [second, first], ⟨snapshot, true, 2⟩) := by cbv
    have evaluated (context : Context) : (Evaluation.results (Evaluation.node records .cached 1)
        [second, first] ⟨⟨snapshot, true, 2⟩, context⟩).1 =
          .ok [.bool false, .bool true] := by cbv
    exact Evaluation.fst_block rfl rfl listed (evaluated _)
  · rw [overtaken]
    have listed : Reading.children records .direct root Reading.start =
        (.ok [first, second], ⟨.empty, false, 3⟩) := by cbv
    have evaluated (context : Context) : (Evaluation.results (Evaluation.node records .direct 1)
        [first, second] ⟨⟨.empty, false, 3⟩, context⟩).1 =
          .ok [.bool true, .bool false] := by cbv
    exact Evaluation.fst_block rfl rfl listed (evaluated _)

end RuleTree
