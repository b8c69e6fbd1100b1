import RuleTree.Proofs.Reading.Caching
import RuleTree.Proofs.Reading.Cost
import Mathlib

/-!
# How often a tree is fetched

Evaluating a tree through a snapshot, or writing it as a document, asks for nodes of the tree, for
objects that these wrap and for definitions that the variables among them name, and for nothing
else.  So the first query loads the tree and all later ones are answered from memory, whether the
evaluation succeeds or fails: the whole costs what the load costs (`Reachable.bounded_fetches`).
-/

namespace RuleTree

open Step Records Reading

variable {records : Records} {root : NodeId} {fetches : Nat}

/-! ## Evaluation -/

namespace Evaluation

/-- The snapshot of an evaluation is stocked with a tree, and so many fetches were made. -/
def Opened (records : Records) (root : NodeId) (fetches : Nat) (run : Run) : Prop :=
  Reading.Opened records root fetches run.reading

/-- Once the snapshot is stocked with a tree, evaluating a node of the tree costs nothing. -/
theorem opened_node [Host] (linked : Linked records) (depth : Nat) {node : Node}
    (inside : Inside records root node) {run : Run} (opened : Opened records root fetches run) :
    Opened records root fetches (Evaluation.node records .cached depth node run).2 := by
  have together : Together (fun reading reading' => reading = reading' ∧
      Reading.Opened records root fetches reading) Eq run run := ⟨⟨rfl, opened⟩, rfl⟩
  rcases (interchangeable_opened linked).alike_node inseparable_eq ⟨rfl, inside⟩ run run
    together with ⟨⟨⟨_, after⟩, _⟩, _⟩
  exact after

theorem read_of_same {α : Type} {step : ReadM α} {reading reading' : Reading} {context : Context}
    (same : step reading = step reading') :
    read step ⟨reading, context⟩ = read step ⟨reading', context⟩ := by
  simp only [read, same]

/-- The first query of an evaluation loads the tree, and no other query fetches anything. -/
theorem opens_node [Host] (tidy : Tidy records) (depth : Nat) {node : Node}
    (sound : Sound records node) :
    Leads (fun run => run.reading = start)
      (Opened records node.id (records.loadCost node.id)) (fun _ => True)
      (Evaluation.node records .cached (depth + 1) node) := by
  rintro ⟨_, context⟩ rfl
  rcases sound.first_query tidy with ⟨loaded, opened, first⟩
  have linked := tidy.linked
  suffices same : Evaluation.node records .cached (depth + 1) node ⟨start, context⟩ =
      Evaluation.node records .cached (depth + 1) node ⟨loaded, context⟩ by
    rw [same]
    exact ⟨opened_node linked _ sound.inside opened, fun _ _ => trivial⟩
  unfold Evaluation.node
  cases wraps : node.content with
  | none =>
      -- A node without an object has no parent, so that its children are asked for first.
      have root : node.isRoot = true := by
        cases above : node.parent with
        | none => simp [Node.isRoot, above]
        | some parent =>
            rcases linked.wrapping sound.stored above with ⟨ref, wraps'⟩
            rw [wraps] at wraps'
            cases wraps'
      have skipped (run : Run) : read (content records .cached node) run = (.ok none, run) := by
        rw [content_of_block wraps]
        rfl
      rw [bind_of_ok (skipped _), bind_of_ok (skipped _)]
      simp only [root, if_true]
      exact bind_of_same (read_of_same (children_of_ensure first))
  | some ref => exact bind_of_same (read_of_same (content_of_ensure wraps first))

end Evaluation

/-! ## Documents -/

/-- The first query for a document loads the tree, and no other query fetches anything. -/
theorem Block.opens_build (tidy : Tidy records) (ids : Bool) {node : Node}
    (sound : Sound records node) :
    Leads (· = start) (Opened records node.id (records.loadCost node.id)) (fun _ => True)
      (build records .cached ids node) := by
  rintro _ rfl
  rcases sound.first_query tidy with ⟨loaded, opened, first⟩
  have same : document records .cached ids node start =
      document records .cached ids node loaded := by
    unfold document
    cases wraps : node.content with
    | none =>
        have block : node.isBlock = true := by simp [Node.isBlock, wraps]
        simp only [block, if_true]
        have visible : visibleChildren records .cached node start =
            visibleChildren records .cached node loaded :=
          bind_of_same (children_of_ensure first)
        exact bind_of_same visible
    | some ref =>
        have block : node.isBlock = false := by simp [Node.isBlock, wraps]
        simp only [block]
        have written : blockElement records .cached ids records.depthBound node start =
            blockElement records .cached ids records.depthBound node loaded :=
          bind_of_same (content_of_ensure wraps first)
        exact bind_of_same written
  have built : build records .cached ids node start = build records .cached ids node loaded :=
    bind_of_same same
  rw [built]
  rcases (interchangeable_opened tidy.linked).alike_build ids ⟨rfl, sound.inside⟩
    ⟨rfl, sound.inside⟩ loaded loaded ⟨rfl, opened⟩ with ⟨⟨_, after⟩, _⟩
  exact ⟨after, fun _ _ => trivial⟩

/-! ## All trees of a store -/

/-- In a complete store, the first query about the children or the object of a node loads the tree
of the node: one fetch for the nodes, one for each kind of object that they wrap, and one more if a
variable of the tree names a definition that no node of the tree wraps.  Whatever is asked about the
tree afterwards costs nothing.  Evaluating the node or writing it as a document costs just as much
in all, whether it succeeds or fails. -/
theorem Reachable.bounded_fetches [Host] {store : Store} (reachable : Reachable store)
    (complete : Complete store.records) {node : Node}
    (stored : store.records.nodes.get? node.id = some node) :
    (∀ {first : Query},
      first = .children node ∨ first = .content node ∧ node.content ≠ none →
        (first.ask store.records start).fetches = store.records.loadCost node.id ∧
          ∀ queries : List Query, (∀ query ∈ queries, query.About store.records node.id) →
            (queries.foldl (fun reading query => query.ask store.records reading)
              (first.ask store.records start)).fetches = store.records.loadCost node.id) ∧
      (∀ context : Context, context.cache = true →
        (interpret store.records node context).2.2 = store.records.loadCost node.id) ∧
        ∀ ids, (Block.build store.records .cached ids node start).2.fetches =
          store.records.loadCost node.id := by
  have tidy := reachable.tidy
  have sound := complete.sound stored
  have ensures := sound.ensures tidy
  refine ⟨fun {first} asked => ?_, fun context cached => ?_, fun ids => ?_⟩
  · have opened : Opened store.records node.id (store.records.loadCost node.id)
        (first.ask store.records start) := by
      rcases asked with rfl | ⟨rfl, wraps⟩
      · exact (ensures.leads_children tidy.linked sound.inside start rfl).1
      · rcases Option.ne_none_iff_exists'.mp wraps with ⟨ref, wraps⟩
        exact (ensures.leads_content sound.inside wraps start rfl).1
    exact ⟨opened.2, fun queries about => (Query.foldl_ask_opened tidy.linked about opened).2⟩
  · have access : context.access = .cached := by simp [Context.access, cached]
    have opened : Evaluation.Opened store.records node.id (store.records.loadCost node.id)
        (evaluate store.records .cached context.library node ⟨start, context⟩).2 :=
      (Evaluation.opens_node tidy _ sound ⟨start, context⟩ rfl).1
    unfold interpret interpretWith
    rw [access]
    exact opened.2
  · exact (Block.opens_build tidy ids sound start rfl).1.2

/-- One fetch for the node of the variable, one for the variable and one for its definition. -/
theorem bounded_fetches_variable : ∃ node, Complete oneVariable.records ∧
    oneVariable.records.nodes.get? node.id = some node ∧
      ((Query.content node).ask oneVariable.records start).fetches =
        oneVariable.records.loadCost node.id ∧
      (interpret oneVariable.records node Context.fresh).2.2 =
        oneVariable.records.loadCost node.id ∧
      oneVariable.records.loadCost node.id = 3 := by
  have reachable : Reachable oneVariable := .create _ _ _ .empty
  let node : Node := ⟨⟨1⟩, none, 0, some ⟨.use, ⟨2⟩⟩⟩
  have stored : oneVariable.records.nodes.get? node.id = some node := by rfl
  rcases reachable.bounded_fetches complete_oneVariable stored with ⟨queries, values, _⟩
  have asked := (queries (.inr ⟨rfl, by simp [node]⟩)).1
  refine ⟨node, complete_oneVariable, stored, asked, values Context.fresh rfl, ?_⟩
  rw [← asked]
  cbv

end RuleTree
