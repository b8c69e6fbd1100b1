import RuleTree.Proofs.Creation.Building
import RuleTree.Proofs.Reading.Presence
import RuleTree.Proofs.Tree.Copies
import Mathlib

/-!
# What trees refer to is stored

`Tracked lost` is every store that comes out of the empty one while each new variable names a
definition that is stored by then.  Nodes may be put around stored objects, so that a deletion can
take away an object that another tree still refers to; `lost` keeps account of these objects and of
nothing else.  Whatever is not lost is there (`Tracked.integrity`).
-/

namespace RuleTree

open Step Store Records RuleTree.Tree Creation

/-- Every variable that is new names a definition that is stored by then. -/
def Naming (before after : Records) : Prop :=
  ∀ {use definition}, after.objects.get? use = some (.use definition) →
    before.objects.get? use = some (.use definition) ∨
      ∃ content, after.objects.get? ⟨.definition, definition⟩ = some content

/-- One new object, which is no variable or names a definition that is stored. -/
theorem naming_of_objects {before after : Records} {ref : ContentRef} {content : Content}
    (objects : after.objects = before.objects.insert ref content)
    (named : ∀ definition, content = .use definition →
      ∃ object, after.objects.get? ⟨.definition, definition⟩ = some object) :
    Naming before after := by
  intro use definition found
  rw [objects] at found
  rcases Table.get?_insert_cases found with ⟨_, same⟩ | ⟨_, old⟩
  · exact .inr (named definition same.symm)
  · exact .inl old

/-- What a tree refers to: the objects that its nodes wrap and the definitions that its variables
name. -/
def Records.Needs (records : Records) (root : NodeId) (ref : ContentRef) : Prop :=
  records.Referenced root ref ∨
    ref.kind = .definition ∧ ∃ use, records.Referenced root use ∧
      records.objects.get? use = some (.use ref.id)

/-- The stores that edits lead to whose variables name stored definitions at first.  A deletion that
succeeds loses what is exposed: what its tree wraps while something outside refers to it. -/
inductive Tracked : (ContentRef → Prop) → Store → Prop where
  | empty : Tracked (fun _ => False) Store.empty
  | addRoot {lost : ContentRef → Prop} {store : Store} (content : Option Content) :
      Tracked lost store → Naming store.records (addRoot content store).2.records →
        Tracked lost (addRoot content store).2
  | attachRoot {lost : ContentRef → Prop} {store : Store} (content : Option ContentRef) :
      Tracked lost store → Tracked lost (attachRoot content store).2
  | addChild {lost : ContentRef → Prop} {store : Store} (parent : NodeId) (content : Content) :
      Tracked lost store → Naming store.records (addChild parent content store).2.records →
        Tracked lost (addChild parent content store).2
  | attachChild {lost : ContentRef → Prop} {store : Store} (parent : NodeId)
      (content : ContentRef) :
      Tracked lost store → Tracked lost (attachChild parent content store).2
  | moveChild {lost : ContentRef → Prop} {store : Store} (parent child : NodeId) (index : Nat) :
      Tracked lost store → Tracked lost (moveChild parent child index store).2
  | cloneTree {lost : ContentRef → Prop} {store : Store} (node : Node) :
      Tracked lost store → store.records.nodes.get? node.id = some node →
        Tracked lost (cloneTree node store).2
  | deleteTree {lost : ContentRef → Prop} {store : Store} (node : Node) :
      Tracked lost store → store.records.nodes.get? node.id = some node →
        Tracked
          (fun ref => lost ref ∨
            (deleteTree node store).1 = .ok () ∧ store.records.Exposed node.id ref)
          (deleteTree node store).2
  | declareVariables {lost : ContentRef → Prop} {store : Store} (interface : Interface) :
      Tracked lost store → Tracked lost (interface.declareVariables store).2
  | create {lost : ContentRef → Prop} {store : Store} (functions : Option Library) (tree : Sketch)
      (version : Option Version) :
      Tracked lost store →
        Naming store.records (create functions tree version store).2.records →
          Tracked lost (create functions tree version store).2
  | importDocument {lost : ContentRef → Prop} {store : Store} (functions : Option Library)
      (document : String) (version : Option Version) :
      Tracked lost store → Tracked lost (importDocument functions document version store).2
  | refuse {lost : ContentRef → Prop} {store : Store} (refused : List ContentRef) :
      Tracked lost store → Tracked lost { store with refused }

namespace Tracked

variable {lost : ContentRef → Prop} {store after : Store} {α : Type}

theorem reachable (run : Tracked lost store) : Reachable store := by
  induction run with
  | empty => exact .empty
  | addRoot content _ _ ih => exact .addRoot content ih
  | attachRoot content _ ih => exact .attachRoot content ih
  | addChild parent content _ _ ih => exact .addChild parent content ih
  | attachChild parent content _ ih => exact .attachChild parent content ih
  | moveChild parent child index _ ih => exact .moveChild parent child index ih
  | cloneTree node _ stored ih => exact .cloneTree node ih stored
  | deleteTree node _ stored ih => exact .deleteTree node ih stored
  | declareVariables interface _ ih => exact .declareVariables interface ih
  | create functions tree version _ _ ih => exact .create functions tree version ih
  | importDocument functions document version _ ih =>
      exact .importDocument functions document version ih
  | refuse refused _ ih => exact .refuse refused ih

/-! ## One edit -/

/-- A node around a stored object makes nothing that could name something missing. -/
theorem intact_attached {wrapped : List ContentRef} (intact : Intact lost store.records)
    (linked : Linked store.records) (builds : Builds store.records [] wrapped after.records) :
    Intact lost after.records := by
  apply intact.builds linked builds
  intro use definition found
  rcases builds.mem_made found with old | impossible
  · exact .inl old
  · cases impossible

/-- An edit that builds may fail, and then it leaves everything as it was. -/
theorem intact_of_builds {step : Action α} (intact : Intact lost store.records)
    (linked : Linked store.records) (harmless : Harmless step)
    (success : ∀ {result after}, step store = (.ok result, after) →
      ∃ made wrapped, Builds store.records made wrapped after.records)
    (naming : Naming store.records (step store).2.records) :
    Intact lost (step store).2.records := by
  rcases outcome : step store with ⟨cause | result, after⟩
  · rw [harmless _ _ _ outcome]
    exact intact
  · rw [outcome] at naming
    rcases success outcome with ⟨made, wrapped, builds⟩
    apply intact.builds linked builds
    intro use definition found
    rcases naming found with old | present
    · exact .inl old
    · exact .inr (.inl present)

/-! ## Whole runs -/

theorem intact (run : Tracked lost store) : Intact lost store.records := by
  induction run with
  | empty => exact intact_empty
  | addRoot content run naming ih =>
      apply intact_of_builds ih run.reachable.tidy.linked (harmless_transaction _) ?_ naming
      intro _ _ done
      rcases builds_addRoot done with ⟨refs, builds⟩
      exact ⟨refs, refs, builds⟩
  | attachRoot content run ih =>
      apply (harmless_write _).preserves ih
      intro _ _ done
      exact intact_attached ih run.reachable.tidy.linked (builds_attachRoot done)
  | addChild parent content run naming ih =>
      apply intact_of_builds ih run.reachable.tidy.linked (harmless_transaction _) ?_ naming
      intro _ _ done
      rcases builds_addChild done with ⟨refs, builds⟩
      exact ⟨refs, refs, builds⟩
  | attachChild parent content run ih =>
      apply (harmless_attachChild _ _).preserves ih
      intro _ _ done
      exact intact_attached ih run.reachable.tidy.linked (builds_attachChild done)
  | moveChild parent child index run ih =>
      have linked := run.reachable.tidy.linked
      apply (harmless_transaction _).preserves ih
      intro _ _ done
      rcases repositioned_moveChild linked done with ⟨place, moved⟩
      exact ih.repositioned moved
  | cloneTree node run stored ih =>
      have linked := run.reachable.tidy.linked
      apply (harmless_transaction _).preserves ih
      intro _ _ done
      rcases cloneTree_spec linked done with ⟨root, rest, copies, made, middle, passes⟩
      exact ih.builds linked (passes.builds linked) (passes.named linked ih)
  | deleteTree node run stored ih =>
      rename_i lost store
      rcases outcome : Tree.deleteTree node store with ⟨cause | _, after⟩
      · have undone := harmless_transaction _ _ _ _ outcome
        simp only [undone, reduceCtorEq, false_and, or_false]
        exact ih
      · simp only [true_and]
        exact ih.dismantled (dismantled run.reachable.tidy.linked outcome)
  | declareVariables interface run ih =>
      have linked := run.reachable.tidy.linked
      apply (harmless_transaction _).preserves ih
      intro refs _ done
      rcases Interface.builds_declareVariables linked done with ⟨builds, declared⟩
      apply ih.builds linked builds
      intro use definition found
      rcases builds.mem_made found with old | new
      · exact .inl old
      · rcases declared_of_mem declared new with ⟨name, source, found'⟩
        rw [found] at found'
        cases found'
  | create functions tree version run naming ih =>
      apply intact_of_builds ih run.reachable.tidy.linked (harmless_create _ _ _) ?_ naming
      exact Creation.builds
  | importDocument functions document version run ih =>
      have linked := run.reachable.tidy.linked
      apply (harmless_importDocument _ _ _).preserves ih
      intro _ _ done
      rcases create_of_imported done with ⟨tree, written, created⟩
      rcases Creation.builds created with ⟨made, wrapped, builds⟩
      apply ih.builds linked builds
      intro use definition found
      rcases named_of_written linked written created found with old | present
      · exact .inl old
      · exact .inr (.inl present)
  | refuse refused _ ih => exact ih

theorem sound_of_needs {node : Node} (run : Tracked lost store)
    (stored : store.records.nodes.get? node.id = some node)
    (safe : ∀ ref, store.records.Needs node.id ref → ¬lost ref) :
    Reading.Sound store.records node := by
  refine ⟨stored, fun id within inner ref found wraps => ?_⟩
  have referenced : store.records.Referenced node.id ref := ⟨id, inner, within, found, wraps⟩
  rcases run.intact.contents ⟨inner, found, wraps⟩ with ⟨content, object⟩ | gone
  · refine ⟨content, object, ?_⟩
    rintro definition rfl
    rcases run.intact.definitions object with present | gone
    · exact present
    · exact absurd gone (safe _ (.inr ⟨rfl, ref, referenced, object⟩))
  · exact absurd gone (safe ref (.inl referenced))

/-- What nodes wrap and what variables name is stored unless it was lost.  A tree that refers to
nothing lost can be evaluated, written and deleted without missing an object. -/
theorem integrity [Host] (run : Tracked lost store) :
    (∀ id ref, store.records.Wraps id ref →
      ((∃ content, store.records.objects.get? ref = some content) ↔ ¬lost ref)) ∧
    (∀ use definition, store.records.objects.get? use = some (.use definition) →
      ((∃ content, store.records.objects.get? ⟨.definition, definition⟩ = some content) ↔
        ¬lost ⟨.definition, definition⟩)) ∧
    ∀ node, store.records.nodes.get? node.id = some node →
      (∀ ref, store.records.Needs node.id ref → ¬lost ref) →
        (∀ context cause, (interpret store.records node context).1 = .error cause → cause.Found) ∧
        (∀ access ids cause, (Block.build store.records access ids node Reading.start).1 =
          .error cause → cause.Found) ∧
        ∀ cause, (Tree.deleteTree node store).1 = .error cause → cause.Found := by
  have tidy := run.reachable.tidy
  have kept {ref : ContentRef}
      (given : (∃ content, store.records.objects.get? ref = some content) ∨ lost ref) :
      (∃ content, store.records.objects.get? ref = some content) ↔ ¬lost ref := by
    constructor
    · rintro ⟨content, found⟩ gone
      rw [(run.intact.missing gone).2] at found
      cases found
    · exact given.resolve_right
  refine ⟨fun id ref wraps => kept (run.intact.contents wraps),
    fun use definition found => kept (run.intact.definitions found), fun node stored safe => ?_⟩
  have sound := run.sound_of_needs stored safe
  exact ⟨fun context _ => sound.interpret_found tidy context,
    fun access ids _ => sound.build_found tidy access ids, fun _ => sound.deleteTree_found tidy⟩

/-- Two roots around one object. -/
def twoRoots : Store :=
  (Tree.attachRoot (some ⟨.boolean, ⟨1⟩⟩) (Tree.addRoot (some (.boolean true)) Store.empty).2).2

theorem run_twoRoots : Tracked (fun _ => False) twoRoots := by
  apply Tracked.attachRoot
  exact .addRoot _ .empty (naming_of_objects rfl (by rintro _ ⟨⟩))

/-- Two more roots, a definition and a variable that names it. -/
def fourRoots : Store :=
  (Tree.addRoot (some (.use ⟨2⟩)) (Tree.addRoot (some (.definition "x" none)) twoRoots).2).2

theorem run_fourRoots : Tracked (fun _ => False) fourRoots := by
  refine .addRoot _ (.addRoot _ run_twoRoots (naming_of_objects rfl (by rintro _ ⟨⟩)))
    (naming_of_objects rfl ?_)
  rintro definition ⟨⟩
  exact ⟨.definition "x" none, by rfl⟩

/-- After one of the two roots around an object is deleted, this object is lost to the other.  The
definition stays, and evaluating the variable misses nothing. -/
theorem integrity_fourRoots : ∃ root lost store,
    Tree.deleteTree root fourRoots = (.ok (), store) ∧ Tracked lost store ∧
      store.records.Wraps ⟨2⟩ ⟨.boolean, ⟨1⟩⟩ ∧ lost ⟨.boolean, ⟨1⟩⟩ ∧
      store.records.objects.get? ⟨.boolean, ⟨1⟩⟩ = none ∧
      store.records.objects.get? ⟨.use, ⟨3⟩⟩ = some (.use ⟨2⟩) ∧ ¬lost ⟨.definition, ⟨2⟩⟩ ∧
      (∃ content, store.records.objects.get? ⟨.definition, ⟨2⟩⟩ = some content) ∧
      ∃ node, store.records.nodes.get? node.id = some node ∧ node.content = some ⟨.use, ⟨3⟩⟩ ∧
        ∀ context cause, (interpret store.records node context).1 = .error cause →
          cause.Found := by
  let root : Node := ⟨⟨1⟩, none, 0, some ⟨.boolean, ⟨1⟩⟩⟩
  let node : Node := ⟨⟨4⟩, none, 0, some ⟨.use, ⟨3⟩⟩⟩
  have run := run_fourRoots.deleteTree root (by rfl)
  have done : (Tree.deleteTree root fourRoots).1 = .ok () := by cbv
  have other : (Tree.deleteTree root fourRoots).2.records.nodes.get? ⟨2⟩ =
      some ⟨⟨2⟩, none, 0, some ⟨.boolean, ⟨1⟩⟩⟩ := by cbv
  have gone : (Tree.deleteTree root fourRoots).2.records.objects.get? ⟨.boolean, ⟨1⟩⟩ = none := by
    cbv
  have stored : (Tree.deleteTree root fourRoots).2.records.nodes.get? node.id = some node := by cbv
  have childless : (Tree.deleteTree root fourRoots).2.records.orderedChildren node.id = [] := by cbv
  have use : (Tree.deleteTree root fourRoots).2.records.objects.get? ⟨.use, ⟨3⟩⟩ =
      some (.use ⟨2⟩) := by cbv
  have defined : (Tree.deleteTree root fourRoots).2.records.objects.get? ⟨.definition, ⟨2⟩⟩ =
      some (.definition "x" none) := by cbv
  rcases outcome : Tree.deleteTree root fourRoots with ⟨answer, store⟩
  rw [outcome] at run done other gone stored childless use defined
  cases done
  rcases run.integrity with ⟨contents, definitions, reading⟩
  have dangling : store.records.Wraps ⟨2⟩ ⟨.boolean, ⟨1⟩⟩ := ⟨_, other, rfl⟩
  have kept := (definitions _ _ use).mp ⟨_, defined⟩
  have referenced {ref : ContentRef} (inside : store.records.Referenced node.id ref) :
      ref = ⟨.use, ⟨3⟩⟩ := by
    rcases inside with ⟨id, inner, within, found, wraps⟩
    rcases Relation.ReflTransGen.cases_head within with rfl | ⟨child, listed, _⟩
    · rw [stored] at found
      cases found
      cases wraps
      rfl
    · rw [ChildOf, ← mem_orderedChildren, childless] at listed
      cases listed
  refine ⟨root, _, store, outcome, run, dangling, ?_, gone, use, kept, ⟨_, defined⟩, node, stored,
    rfl, (reading node stored ?_).1⟩
  · by_contra safe
    rcases (contents _ _ dangling).mpr safe with ⟨content, found⟩
    rw [gone] at found
    cases found
  · rintro ref (inside | ⟨kind, other_use, inside, found⟩)
    · rcases referenced inside with rfl
      exact (contents _ _ ⟨node, stored, rfl⟩).mp ⟨_, use⟩
    · rcases referenced inside with rfl
      rw [use] at found
      cases ref
      cases kind
      cases found
      exact kept

/-- Deleting one of two roots around an object leaves the other without its object. -/
theorem exists_dangling : ∃ lost store node ref, Tracked lost store ∧
    store.records.nodes.get? node.id = some node ∧ node.content = some ref ∧
      store.records.objects.get? ref = none ∧
        (interpret store.records node Context.fresh).1 = .error (.store (.objectNotFound ref)) := by
  let first : Node := ⟨⟨1⟩, none, 0, some ⟨.boolean, ⟨1⟩⟩⟩
  let second : Node := ⟨⟨2⟩, none, 0, some ⟨.boolean, ⟨1⟩⟩⟩
  refine ⟨_, (Tree.deleteTree first twoRoots).2, second, ⟨.boolean, ⟨1⟩⟩,
    .deleteTree first run_twoRoots (by rfl), ?_, rfl, ?_, ?_⟩
  · cbv
  · cbv
  · cbv

end Tracked

end RuleTree
