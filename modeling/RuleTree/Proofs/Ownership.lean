import RuleTree.Proofs.Creation.Building
import RuleTree.Proofs.Tree.Copies

/-!
# Stores without orphans

`Unattached` is every store that comes out of the empty one without putting a node around an object
that is stored already: by adding, moving, copying and deleting trees, by declaring variables, and
by creating and importing sketches that have no addresses.  In such a store no two nodes share an
object and no object is left over (`Unattached.no_orphans`): each edit that succeeds keeps the
records owned, and one that fails leaves them alone.
-/

namespace RuleTree

open Step Store Records RuleTree.Tree Creation

/-- The stores that edits lead to which attach no stored object.  A tree may be copied and deleted
by any record of a node; which deletions of objects are refused may change at any time. -/
inductive Unattached : Store → Prop where
  | empty : Unattached Store.empty
  | addRoot {store : Store} (content : Option Content) :
      Unattached store → Unattached (addRoot content store).2
  | addChild {store : Store} (parent : NodeId) (content : Content) :
      Unattached store → Unattached (addChild parent content store).2
  | moveChild {store : Store} (parent child : NodeId) (index : Nat) :
      Unattached store → Unattached (moveChild parent child index store).2
  | cloneTree {store : Store} (node : Node) :
      Unattached store → Unattached (cloneTree node store).2
  | deleteTree {store : Store} (node : Node) :
      Unattached store → Unattached (deleteTree node store).2
  | declareVariables {store : Store} (interface : Interface) :
      Unattached store → Unattached (interface.declareVariables store).2
  | create {store : Store} (functions : Option Library) (tree : Sketch)
      (version : Option Version) :
      (∀ part ∈ tree.walk, part.get? "object_id" = none) →
        Unattached store → Unattached (create functions tree version store).2
  | importDocument {store : Store} (functions : Option Library) (document : String)
      (version : Option Version) :
      Unattached store → Unattached (importDocument functions document version store).2
  | refuse {store : Store} (refused : List ContentRef) :
      Unattached store → Unattached { store with refused }

namespace Unattached

variable {store after : Store}

/-- Linked records in which every object has its place. -/
structure Kept (records : Records) : Prop where
  linked : Linked records
  owned : Owned records

theorem Kept.of_builds {before after : Records} {made wrapped : List ContentRef}
    (kept : Kept before) (builds : Builds before made wrapped after) (distinct : wrapped.Nodup)
    (own : ∀ ref ∈ wrapped, ref ∈ made)
    (used : ∀ ref ∈ made, ref ∈ wrapped ∨ after.Spare ref) : Kept after :=
  ⟨builds.linked kept.linked, kept.owned.builds kept.linked builds distinct own used⟩

/-- Every new object gets a node. -/
theorem Kept.of_pairs {before after : Records} {refs : List ContentRef} (kept : Kept before)
    (builds : Builds before refs refs after) : Kept after :=
  kept.of_builds builds (builds.nodup_made kept.linked) (fun _ member => member)
    fun _ member => .inl member

theorem kept (run : Unattached store) : Kept store.records := by
  induction run with
  | empty => exact ⟨linked_empty, owned_empty⟩
  | addRoot content _ ih =>
      apply (harmless_transaction _).preserves ih
      intro _ _ done
      rcases builds_addRoot done with ⟨refs, builds⟩
      exact ih.of_pairs builds
  | addChild parent content _ ih =>
      apply (harmless_transaction _).preserves ih
      intro _ _ done
      rcases builds_addChild done with ⟨refs, builds⟩
      exact ih.of_pairs builds
  | moveChild parent child index _ ih =>
      apply (harmless_transaction _).preserves ih
      intro _ _ done
      rcases repositioned_moveChild ih.linked done with ⟨place, moved⟩
      exact ⟨moved.linked ih.linked, ih.owned.repositioned moved⟩
  | cloneTree node _ ih =>
      apply (harmless_transaction _).preserves ih
      intro _ _ done
      rcases cloneTree_spec ih.linked done with ⟨root, rest, copies, made, middle, passes⟩
      rcases passes.owned ih.linked with ⟨distinct, same⟩
      exact ih.of_builds (passes.builds ih.linked) distinct (fun ref => (same ref).mp)
        fun ref member => .inl ((same ref).mpr member)
  | deleteTree node _ ih =>
      apply (harmless_transaction _).preserves ih
      intro _ _ done
      have gone := dismantled ih.linked done
      exact ⟨gone.linked, ih.owned.dismantled gone⟩
  | declareVariables interface _ ih =>
      apply (harmless_transaction _).preserves ih
      intro refs _ done
      rcases Interface.builds_declareVariables ih.linked done with ⟨builds, declared⟩
      apply ih.of_builds builds List.nodup_nil (by simp)
      intro ref member
      rcases declared_of_mem declared member with ⟨name, source, found⟩
      have kind := ((builds.linked ih.linked).addressed found).2
      refine .inr ⟨kind.symm, fun found' => ?_⟩
      rw [found] at found'
      cases found'
  | create functions tree version plain _ ih =>
      apply (harmless_create _ _ _).preserves ih
      intro _ _ done
      rcases builds_plain ih.linked plain done with ⟨made, wrapped, builds, distinct, own, used⟩
      exact ih.of_builds builds distinct own used
  | importDocument functions document version _ ih =>
      apply (harmless_importDocument _ _ _).preserves ih
      intro _ _ done
      rcases create_of_imported done with ⟨tree, written, created⟩
      rcases builds_plain ih.linked (fun part member => (written part member).no_object)
        created with ⟨made, wrapped, builds, distinct, own, used⟩
      exact ih.of_builds builds distinct own used
  | refuse refused _ ih => exact ih

/-- No node shares its object or has lost it, no object but a definition is without a node, and a
definition without a source has a node or is named by a variable. -/
theorem no_orphans (run : Unattached store) :
    (∀ id ref, store.records.Wraps id ref →
      (∃ content, store.records.objects.get? ref = some content) ∧
        ∀ other, store.records.Wraps other ref → other = id) ∧
    (∀ ref content, store.records.objects.get? ref = some content → content.kind ≠ .definition →
      ∃! id, store.records.Wraps id ref) ∧
    ∀ ref name, store.records.objects.get? ref = some (.definition name none) →
      (∃! id, store.records.Wraps id ref) ∨
        ∃ use, store.records.objects.get? use = some (.use ref.id) := by
  rcases run.kept with ⟨linked, owned⟩
  have one {id : NodeId} {ref : ContentRef} (wraps : store.records.Wraps id ref) :
      ∃! id, store.records.Wraps id ref :=
    ⟨id, wraps, fun _ wraps' => owned.unshared wraps' wraps⟩
  refine ⟨fun id ref wraps => ⟨owned.stored wraps, fun _ wraps' => owned.unshared wraps' wraps⟩,
    fun ref content found other => ?_, fun ref name found => ?_⟩
  · rcases owned.needed found with ⟨id, wraps⟩ | spare
    · exact one wraps
    · exact absurd ((linked.addressed found).2.trans spare.definition) other
  · rcases owned.needed found with ⟨id, wraps⟩ | spare
    · exact .inl (one wraps)
    · exact .inr (spare.named found)

/-- In the tree of one variable the definition has no node, but the variable names it. -/
theorem no_orphans_variable : ∃ store, Unattached store ∧
    store.records.objects.get? ⟨.definition, ⟨1⟩⟩ = some (.definition "x" none) ∧
      (∀ id, ¬store.records.Wraps id ⟨.definition, ⟨1⟩⟩) ∧
        ∃ use, store.records.objects.get? use = some (.use ⟨1⟩) := by
  have created : Unattached oneVariable := by
    apply Unattached.create none _ none ?_ .empty
    intro part member
    rcases List.mem_singleton.mp member with rfl
    rfl
  have found : oneVariable.records.objects.get? ⟨.definition, ⟨1⟩⟩ =
      some (.definition "x" none) := by rfl
  have alone : ∀ id, ¬oneVariable.records.Wraps id ⟨.definition, ⟨1⟩⟩ := by
    rintro id ⟨node, at_id, wraps⟩
    have nodes : oneVariable.records.nodes =
        Table.empty.insert ⟨1⟩ ⟨⟨1⟩, none, 0, some ⟨.use, ⟨2⟩⟩⟩ := by rfl
    rw [nodes, Table.get?_insert] at at_id
    split at at_id
    · cases at_id
      cases wraps
    · cases at_id
  refine ⟨oneVariable, created, found, alone, ?_⟩
  rcases created.no_orphans.2.2 _ _ found with ⟨id, wraps, _⟩ | named
  · exact absurd wraps (alone id)
  · exact named

end Unattached

end RuleTree
