import RuleTree.Proofs.Creation.Building
import RuleTree.Proofs.Reachable
import RuleTree.Proofs.Tree.Copies
import RuleTree.Proofs.Tree.Dismantling

/-!
# What an edit can do to the records

An edit that succeeds builds something up, moves the children of a node or takes a tree away
(`Records.Change`), and one that fails leaves the records alone.  Whatever holds of the empty
records and is kept by each such change holds of every store (`Reachable.of_changes`).
-/

namespace RuleTree

open Step Store Records RuleTree.Tree Creation

variable {store : Store}

/-- What a successful edit did to the records. -/
inductive Records.Change (before after : Records) : Prop where
  | built {made wrapped : List ContentRef} : Builds before made wrapped after → Change before after
  | moved {place : NodeId → Nat → Nat} : Repositioned place before after → Change before after
  | deleted {root : NodeId} {parent : Option NodeId} {objects : Table ContentRef Content}
      {middle : Records} : Stages root parent before objects middle after → Change before after

/-- An induction over the edits of a store, in which only three kinds of changes are to be
considered. -/
theorem Reachable.of_changes {holds : Records → Prop} (empty : holds Records.empty)
    (kept : ∀ {before after}, Linked before → holds before → Change before after → holds after)
    (reachable : Reachable store) : holds store.records := by
  induction reachable with
  | empty => exact empty
  | addRoot content run ih =>
      apply (harmless_transaction _).preserves ih
      intro _ _ done
      rcases builds_addRoot done with ⟨refs, builds⟩
      exact kept run.tidy.linked ih (.built builds)
  | attachRoot content run ih =>
      apply (harmless_write _).preserves ih
      intro _ _ done
      exact kept run.tidy.linked ih (.built (builds_attachRoot done))
  | addChild parent content run ih =>
      apply (harmless_transaction _).preserves ih
      intro _ _ done
      rcases builds_addChild done with ⟨refs, builds⟩
      exact kept run.tidy.linked ih (.built builds)
  | attachChild parent content run ih =>
      apply (harmless_attachChild _ _).preserves ih
      intro _ _ done
      exact kept run.tidy.linked ih (.built (builds_attachChild done))
  | moveChild parent child index run ih =>
      apply (harmless_transaction _).preserves ih
      intro _ _ done
      rcases repositioned_moveChild run.tidy.linked done with ⟨place, moved⟩
      exact kept run.tidy.linked ih (.moved moved)
  | cloneTree node run stored ih =>
      have linked := run.tidy.linked
      apply (harmless_transaction _).preserves ih
      intro _ _ done
      rcases cloneTree_spec linked done with ⟨root, rest, copies, made, middle, passes⟩
      exact kept linked ih (.built (passes.builds linked))
  | deleteTree node run stored ih =>
      apply (harmless_transaction _).preserves ih
      intro _ _ done
      rcases deleteTree_stages run.tidy.linked done with ⟨objects, middle, stages⟩
      exact kept run.tidy.linked ih (.deleted stages)
  | declareVariables interface run ih =>
      have linked := run.tidy.linked
      apply (harmless_transaction _).preserves ih
      intro _ _ done
      exact kept linked ih (.built (Interface.builds_declareVariables linked done).1)
  | create functions tree version run ih =>
      apply (harmless_create _ _ _).preserves ih
      intro _ _ done
      rcases Creation.builds done with ⟨made, wrapped, builds⟩
      exact kept run.tidy.linked ih (.built builds)
  | importDocument functions document version run ih =>
      apply (harmless_importDocument _ _ _).preserves ih
      intro _ _ done
      rcases create_of_imported done with ⟨tree, _, created⟩
      rcases Creation.builds created with ⟨made, wrapped, builds⟩
      exact kept run.tidy.linked ih (.built builds)
  | refuse refused _ ih => exact ih

end RuleTree
