import RuleTree.Proofs.Block.RoundTrip
import RuleTree.Proofs.Changes
import RuleTree.Proofs.Creation.Sprouts
import RuleTree.Proofs.Independence
import RuleTree.Proofs.Store.Refusals

/-!
# Deleting undoes creating

A tree that was just created, imported or copied can be deleted again, and then nodes, lists of
children and objects are exactly what they were before (`Reachable.deletion_undoes`).  Definitions
that a variable of the new tree shares with other trees stay, and those that were made for it go, no
matter whether they got nodes.  Only the numbers that were given out are not given out again.
-/

namespace RuleTree

open Step Store Records RuleTree.Tree Creation

variable {store after : Store}

/-! ## Lists of children -/

/-- In every store only stored nodes have a list of children. -/
theorem Reachable.housed (reachable : Reachable store) : Housed store.records := by
  apply reachable.of_changes .empty
  intro before after _ housed change
  cases change with
  | built builds => exact housed.builds builds
  | moved moved => exact housed.repositioned moved
  | deleted stages => exact housed.stages stages

/-! ## Copies -/

/-- A copy is a new tree, whose variables name copies or what the variables of the original name. -/
theorem Tree.sprouted {node copy : Node} (tidy : Tidy store.records)
    (complete : Complete store.records) (done : cloneTree node store = (.ok copy, after)) :
    Sprouted store.records copy after.records := by
  have linked := tidy.linked
  rcases cloneTree_spec linked done with ⟨root, rest, copies, made, middle, passes⟩
  rcases passes.copying tidy with ⟨copied, copying⟩
  have builds := passes.builds linked
  have own := (passes.owned linked).2
  rcases copying.origin with ⟨entry, stored, alone, _⟩
  constructor
  case grown => exact copying.grown
  case lists => exact builds.lists_kept copying.grown
  case stored => exact stored
  case alone => exact alone
  case fresh => exact linked.get?_fresh (copying.stored entry).1
  case below =>
    intro id node found
    refine (copying.grown.newNodes found).imp_right fun new => ?_
    rcases copying.covers found new with ⟨original, entry⟩
    exact (within_image_iff copying passes.listing tidy).mpr
      ⟨original, within_of_entry copying passes.listing entry⟩
  case wraps =>
    intro id ref wraps
    refine (builds.wraps_cases linked wraps).imp_right fun ⟨member, present⟩ => ?_
    exact ⟨builds.absent_of_mem_made linked ((own ref).mp member), present⟩
  case needed =>
    intro ref content found
    refine (builds.mem_made found).imp_right fun member => ?_
    exact .inl (builds.wraps_of_mem linked ((own ref).mpr member))
  case named =>
    intro use definition found
    rcases builds.mem_made found with old | new
    · exact .inr (.inr ⟨use, old⟩)
    rcases passes.use_of_made linked (complete.intact linked).counted new found with
      ⟨original, target, named, copied | rfl⟩
    · exact .inl ⟨builds.absent_of_mem_made linked copied, (builds.of_mem_made linked copied).2⟩
    · exact .inr (.inr ⟨original, named⟩)

/-! ## There and back -/

/-- The deletion of a tree succeeds and leaves what was in a store before. -/
def Undone (store : Store) (root : Node) (middle : Store) : Prop :=
  ∃ after, deleteTree root middle = (.ok (), after) ∧
    after.records =
      { store.records with
        lastNode := after.records.lastNode
        lastObject := after.records.lastObject }

theorem Records.Sprouted.undone {middle : Store} {root : Node}
    (sprouted : Sprouted store.records root middle.records) (reachable : Reachable store)
    (reachable' : Reachable middle) (complete : Complete store.records)
    (allowed : middle.refused = []) : Undone store root middle := by
  have linked := reachable.tidy.linked
  have linked' := reachable'.tidy.linked
  rcases exists_deleteTree linked' (sprouted.complete complete) allowed sprouted.stored with
    ⟨after, done⟩
  have uprooted := uprooted linked' sprouted.stored sprouted.alone done
  exact ⟨after, done, sprouted.restored linked linked' uprooted complete reachable.housed
    reachable'.housed⟩

/-- In a store that has what its nodes and its variables refer to and that refuses no deletion, a
tree that was created from a sketch without addresses and numbers of definitions, or imported, can
be deleted, and so can a copy of any stored tree.  Then all nodes, lists of children and objects are
what they were before. -/
theorem Reachable.deletion_undoes (reachable : Reachable store) (complete : Complete store.records)
    (allowed : store.refused = []) :
    (∀ {functions : Option Library} {tree : Sketch} {version : Option Version} {root : Node}
      {middle : Store}, (∀ part ∈ tree.walk, part.get? "object_id" = none) →
        (∀ part ∈ tree.walk, part.get? "definition_id" = none) →
          Creation.create functions tree version store = (.ok root, middle) →
            Undone store root middle) ∧
    (∀ {functions : Option Library} {document : String} {version : Option Version} {root : Node}
      {middle : Store},
        Creation.importDocument functions document version store = (.ok root, middle) →
          Undone store root middle) ∧
    ∀ {node : Node}, store.records.nodes.get? node.id = some node →
      ∃ copy middle, Tree.cloneTree node store = (.ok copy, middle) ∧ Undone store copy middle := by
  have tidy := reachable.tidy
  refine ⟨?_, ?_, ?_⟩
  · intro functions tree version root middle plain unbound done
    have reachable' := Reachable.create functions tree version reachable
    have allowed' := (keeps_create functions tree version store).trans allowed
    rw [done] at reachable' allowed'
    exact (Creation.sprouted tidy plain unbound done).undone reachable reachable' complete allowed'
  · intro functions document version root middle done
    have reachable' := Reachable.importDocument functions document version reachable
    have allowed' := (keeps_importDocument functions document version store).trans allowed
    rw [done] at reachable' allowed'
    rcases create_of_imported done with ⟨tree, written, created⟩
    have sprouted := Creation.sprouted tidy (fun part member => (written part member).no_object)
      (fun part member => (written part member).no_definition) created
    exact sprouted.undone reachable reachable' complete allowed'
  · intro node stored
    rcases exists_cloneTree tidy stored fun _ referenced => referenced.stored complete with
      ⟨copy, middle, done⟩
    have reachable' := Reachable.cloneTree node reachable stored
    have allowed' := (keeps_cloneTree node store).trans allowed
    rw [done] at reachable' allowed'
    exact ⟨copy, middle, done,
      (Tree.sprouted tidy complete done).undone reachable reachable' complete allowed'⟩

/-- Next to one variable another one is created, an assignment is imported, and the variable is
copied with its definition left where it is. -/
theorem deletion_undoes_variable :
    (∃ root middle, Creation.create none ⟨Sketch.dataOf .use [("name", .str "y")], []⟩ none
      oneVariable = (.ok root, middle) ∧ Undone oneVariable root middle) ∧
    (∃ document root middle, Creation.importDocument none document none oneVariable =
      (.ok root, middle) ∧ Undone oneVariable root middle) ∧
    ∃ copy middle, Tree.cloneTree ⟨⟨1⟩, none, 0, some ⟨.use, ⟨2⟩⟩⟩ oneVariable =
      (.ok copy, middle) ∧ Undone oneVariable copy middle := by
  have reachable : Reachable oneVariable := .create _ _ _ .empty
  rcases reachable.deletion_undoes complete_oneVariable rfl with ⟨created, imported, copied⟩
  refine ⟨?_, ?_, copied (by rfl)⟩
  · have done : ∃ root middle, Creation.create none
        ⟨Sketch.dataOf .use [("name", .str "y")], []⟩ none oneVariable = (.ok root, middle) :=
      ⟨_, _, by rfl⟩
    rcases done with ⟨root, middle, done⟩
    refine ⟨root, middle, done, created ?_ ?_ done⟩
    · rintro _ (_ | ⟨_, ⟨⟩⟩)
      rfl
    · rintro _ (_ | ⟨_, ⟨⟩⟩)
      rfl
  · have done : ∃ root middle, Creation.create none
        (.block (Block.Figure.sketches [Block.oneFigure])) none oneVariable = (.ok root, middle) :=
      ⟨_, _, by rfl⟩
    rcases done with ⟨root, middle, done⟩
    have done := Block.importDocument_eq_ok.mpr
      ⟨_, Block.read_document Block.allFit_oneFigure, done⟩
    exact ⟨_, root, middle, done, imported done⟩

end RuleTree
