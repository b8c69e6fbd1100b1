import RuleTree.Block.Creation
import RuleTree.Proofs.Outcome
import RuleTree.Tree.Edit

/-!
# Refusals

Which deletions a store refuses is set from outside.  No edit, creation or import changes it,
whether it succeeds or fails (`keeps_cloneTree`, `keeps_deleteTree`, `keeps_create`): each is put
together from fetches, writes and deletions, and none of these touches the refusals.
-/

namespace RuleTree

open Step Store RuleTree.Tree Creation

variable {α : Type}

/-! ## Single steps -/

namespace Store

theorem keeps_fetch (read : Records → Except StoreError α) : Keeps refused (fetch read) :=
  fun _ => rfl

theorem keeps_give (answer : Except StoreError α) : Keeps refused (give answer) := fun _ => rfl

theorem keeps_write (update : Records → Except StoreError (α × Records)) :
    Keeps refused (write update) := by
  intro store
  unfold write
  split <;> rfl

theorem keeps_deleteObject (ref : ContentRef) : Keeps refused (deleteObject ref) := by
  intro store
  unfold deleteObject
  split
  · rfl
  · exact keeps_write _ store

theorem keeps_transaction {step : Action α} (keeps : Keeps refused step) :
    Keeps refused (transaction step) := by
  intro store
  have same := keeps store
  unfold transaction
  split
  all_goals
    rename_i outcome
    rw [outcome] at same
    exact same

end Store

theorem Creation.keeps_give (answer : Except CreationError α) :
    Keeps refused (Creation.give answer) :=
  fun _ => rfl

theorem keeps_externalName (ref : ContentRef) : Keeps refused (externalName ref) := by
  intro store
  unfold externalName
  split
  · have same := keeps_fetch (fun records => records.object ref) store
    change ((loadObject ref store).2).refused = store.refused at same
    split
    all_goals
      rename_i outcome
      rw [outcome] at same
      exact same
  · rfl

/-! ## Edits -/

namespace Tree

theorem keeps_attachChild (parent : NodeId) (content : ContentRef) :
    Keeps refused (attachChild parent content) :=
  (keeps_fetch _).bind fun _ => keeps_write _

theorem keeps_addRoot (content : Option Content) : Keeps refused (addRoot content) := by
  refine keeps_transaction ?_
  cases content with
  | none => exact keeps_write _
  | some content => exact (keeps_write _).bind fun _ => keeps_write _

theorem keeps_addChild (parent : NodeId) (content : Content) :
    Keeps refused (addChild parent content) :=
  keeps_transaction ((keeps_write _).bind fun _ => keeps_attachChild _ _)

theorem keeps_renumberFrom (position : Nat) (ordered : List NodeId) :
    Keeps refused (renumberFrom position ordered) := by
  induction ordered generalizing position with
  | nil => exact .pure ()
  | cons id rest ih => exact (keeps_write _).bind fun _ => ih _

theorem keeps_moveChild (parent child : NodeId) (index : Nat) :
    Keeps refused (moveChild parent child index) := by
  refine keeps_transaction ((keeps_fetch _).bind fun siblings => ?_)
  split
  · exact keeps_renumberFrom _ _
  · exact .throw _

theorem keeps_copyDefinitions (copies : Copies) (nodes : List Node) :
    Keeps refused (copyDefinitions copies nodes) := by
  induction nodes generalizing copies with
  | nil => exact .pure _
  | cons node rest ih =>
      unfold copyDefinitions
      split
      · split
        · exact (keeps_fetch _).bind fun _ => (keeps_write _).bind fun _ => ih _
        · exact ih _
      · exact ih _

theorem keeps_copyContents (copies : Copies) (nodes : List Node) :
    Keeps refused (copyContents copies nodes) := by
  induction nodes generalizing copies with
  | nil => exact .pure _
  | cons node rest ih =>
      unfold copyContents
      split
      · split
        · exact ih _
        · exact (keeps_fetch _).bind fun _ => (keeps_write _).bind fun _ => ih _
      · exact ih _

theorem keeps_copyNodes (root : NodeId) (copies : Copies) (copied : Table NodeId NodeId)
    (nodes : List Node) : Keeps refused (copyNodes root copies copied nodes) := by
  induction nodes generalizing copied with
  | nil => exact .pure _
  | cons node rest ih =>
      unfold copyNodes
      dsimp only
      split
      · exact (keeps_write _).bind fun _ => (ih _).bind fun _ => .pure _
      · exact (Store.keeps_give _).bind fun _ => (keeps_write _).bind fun _ =>
          (ih _).bind fun _ => .pure _

theorem keeps_cloneTree (node : Node) : Keeps refused (cloneTree node) := by
  refine keeps_transaction ((keeps_fetch _).bind fun nodes => ?_)
  refine (keeps_copyDefinitions _ _).bind fun copies => ?_
  refine (keeps_copyContents _ _).bind fun copies => ?_
  refine (keeps_copyNodes _ _ _ _).bind fun copied => ?_
  split
  · exact .pure _
  · exact .throw _

theorem keeps_namedDefinitions (referenced refs : List ContentRef) :
    Keeps refused (namedDefinitions referenced refs) := by
  induction refs with
  | nil => exact .pure _
  | cons ref rest ih =>
      unfold namedDefinitions
      split
      · refine (keeps_fetch _).bind fun content => ih.bind fun others => ?_
        split <;> exact .pure _
      · exact ih

theorem keeps_unusedOtherwise (referenced refs : List ContentRef) :
    Keeps refused (unusedOtherwise referenced refs) := by
  induction refs with
  | nil => exact .pure _
  | cons ref rest ih =>
      unfold unusedOtherwise
      refine (keeps_fetch _).bind fun content => ?_
      split
      · refine (keeps_fetch _).bind fun attached => ?_
        split
        · exact ih
        · exact (keeps_fetch _).bind fun _ => ih.bind fun _ => .pure _
      · exact ih

theorem keeps_deleteObjects (refs : List ContentRef) : Keeps refused (deleteObjects refs) := by
  induction refs with
  | nil => exact .pure _
  | cons ref rest ih => exact (keeps_deleteObject ref).bind fun _ => ih

theorem keeps_deleteTree (node : Node) : Keeps refused (deleteTree node) := by
  refine keeps_transaction ((keeps_fetch _).bind fun nodes => ?_)
  refine Keeps.bind ?_ fun free => (keeps_deleteObjects _).bind fun _ =>
    (keeps_write _).bind fun _ => ?_
  · exact (keeps_namedDefinitions _ _).bind fun _ => keeps_unusedOtherwise _ _
  · split
    · exact (keeps_fetch _).bind fun _ => keeps_renumberFrom _ _
    · exact .pure _

end Tree

theorem Interface.keeps_declareVariables (interface : Interface) :
    Keeps refused interface.declareVariables := by
  refine keeps_transaction ?_
  generalize interface.declarations = entries
  induction entries with
  | nil => exact .pure _
  | cons entry rest ih => exact (keeps_write _).bind fun _ => ih.bind fun _ => .pure _

/-! ## Creation -/

namespace Creation

theorem keeps_createContent (functions : Option Library) (data : Fields) :
    Keeps refused (createContent functions data) := by
  refine (keeps_give _).bind fun kind => ?_
  dsimp only
  split
  · exact .pure _
  · exact (keeps_give _).bind fun _ => (keeps_write _).bind fun _ => .pure _

theorem keeps_externalNames (names : Names) (refs : List ContentRef) :
    Keeps refused (externalNames names refs) := by
  induction refs generalizing names with
  | nil => exact .pure _
  | cons ref rest ih => exact (keeps_externalName ref).bind fun _ => ih _

theorem keeps_defineNames (names : Names) (fresh : List String) :
    Keeps refused (defineNames names fresh) := by
  induction fresh generalizing names with
  | nil => exact .pure _
  | cons name rest ih => exact (keeps_write _).bind fun _ => (ih _).bind fun _ => .pure _

theorem keeps_bindVariables (tree : Sketch) (external : List ContentRef) :
    Keeps refused (bindVariables tree external) :=
  (keeps_externalNames _ _).bind fun _ => (keeps_defineNames _ _).bind fun _ => .pure _

mutual

theorem keeps_createContents (functions : Option Library) :
    ∀ tree, Keeps refused (createContents functions tree)
  | ⟨data, children⟩ => by
      unfold createContents
      refine (keeps_createAllContents functions children).bind fun children => ?_
      split
      · exact .pure _
      · exact (keeps_createContent _ _).bind fun _ => .pure _

theorem keeps_createAllContents (functions : Option Library) :
    ∀ trees, Keeps refused (createAllContents functions trees)
  | [] => by
      unfold createAllContents
      exact .pure _
  | tree :: rest => by
      unfold createAllContents
      exact (keeps_createContents functions tree).bind fun _ =>
        (keeps_createAllContents functions rest).bind fun _ => .pure _

end

mutual

theorem keeps_createNodes : ∀ (parent : NodeId) (position : Nat) (tree : Sketch),
    Keeps refused (createNodes parent position tree)
  | parent, position, ⟨data, children⟩ => by
      unfold createNodes
      exact (keeps_give _).bind fun _ => (keeps_write _).bind fun node =>
        keeps_createNodesFrom node.id 0 children

theorem keeps_createNodesFrom : ∀ (parent : NodeId) (position : Nat) (trees : List Sketch),
    Keeps refused (createNodesFrom parent position trees)
  | _, _, [] => by
      unfold createNodesFrom
      exact .pure _
  | parent, position, tree :: rest => by
      unfold createNodesFrom
      exact (keeps_createNodes parent position tree).bind fun _ =>
        keeps_createNodesFrom parent (position + 1) rest

end

theorem keeps_createDefinitions (functions : Option Library) (parent : NodeId) (position : Nat)
    (definitions : List Sketch) :
    Keeps refused (createDefinitions functions parent position definitions) := by
  induction definitions generalizing position with
  | nil => exact .pure _
  | cons definition rest ih =>
      exact (keeps_createContent _ _).bind fun _ => (keeps_write _).bind fun _ => ih _

theorem keeps_createTree (functions : Option Library) (definitions : List Sketch) (tree : Sketch) :
    Keeps refused (createTree functions definitions tree) := by
  unfold createTree
  split
  · exact (keeps_write _).bind fun _ => (keeps_createDefinitions _ _ _ _).bind fun _ =>
      (keeps_createNodesFrom _ _ _).bind fun _ => .pure _
  · exact (keeps_give _).bind fun _ => (keeps_write _).bind fun _ =>
      (keeps_createNodesFrom _ _ _).bind fun _ => .pure _

theorem keeps_create (functions : Option Library) (tree : Sketch) (version : Option Version) :
    Keeps refused (create functions tree version) := by
  refine (keeps_give _).bind fun external => keeps_transaction ?_
  exact (keeps_bindVariables _ _).bind fun _ => (keeps_give _).bind fun _ =>
    (keeps_createContents _ _).bind fun _ => keeps_createTree _ _ _

theorem keeps_importDocument (functions : Option Library) (document : String)
    (version : Option Version) : Keeps refused (importDocument functions document version) :=
  Keeps.bind (fun _ => rfl) fun _ => keeps_create _ _ _

end Creation

end RuleTree
