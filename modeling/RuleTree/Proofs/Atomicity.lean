import RuleTree.Proofs.Creation.Success
import RuleTree.Proofs.Reachable
import RuleTree.Proofs.Store.Refusals
import Mathlib

/-!
# All or nothing

An operation that fails leaves nothing behind (`all_or_nothing`): whatever the store holds and
whatever it refuses to delete, only the count of the reads differs afterwards.  Most operations are
transactions; the others write last and once, or they save objects without a source and cannot fail
after the first of them.  A transaction around an operation that failed goes on from the store that
the operation found, and if it commits, it commits nothing of it.

Variables are bound and objects are described in a tree or in data that the caller keeps.  The steps
on what is kept and on the store together (`bindVariablesInPlace`, `createContentInPlace`) change
what is kept in the end only, so that it is as it was given if they fail.
-/

namespace RuleTree

open Step Store RuleTree.Tree Creation

variable {α β γ δ : Type} {store after : Store} {cause : Error}

/-! ## Operations -/

/-- The operations that write to a store, with what each of them is given, by what they give. -/
inductive Operation : Type → Type where
  | addRoot (content : Option Content) : Operation Node
  | addChild (parent : NodeId) (content : Content) : Operation Node
  | attachRoot (content : Option ContentRef) : Operation Node
  | attachChild (parent : NodeId) (content : ContentRef) : Operation Node
  | moveChild (parent child : NodeId) (index : Nat) : Operation Unit
  | cloneTree (node : Node) : Operation Node
  | deleteTree (node : Node) : Operation Unit
  | declareVariables (interface : Interface) : Operation (List ContentRef)
  | bindVariables (tree : Sketch) (external : List ContentRef) : Operation (List Sketch × Sketch)
  | createContent (functions : Option Library) (data : Fields) : Operation (ContentRef × Fields)
  | create (functions : Option Library) (tree : Sketch) (version : Option Version) : Operation Node
  | importDocument (functions : Option Library) (document : String) (version : Option Version) :
      Operation Node

/-- The operation as a step on the store. -/
def Operation.run : Operation α → Action α
  | .addRoot content => Tree.addRoot content
  | .addChild parent content => Tree.addChild parent content
  | .attachRoot content => Tree.attachRoot content
  | .attachChild parent content => Tree.attachChild parent content
  | .moveChild parent child index => Tree.moveChild parent child index
  | .cloneTree node => Tree.cloneTree node
  | .deleteTree node => Tree.deleteTree node
  | .declareVariables interface => interface.declareVariables
  | .bindVariables tree external => Creation.bindVariables tree external
  | .createContent functions data => Creation.createContent functions data
  | .create functions tree version => Creation.create functions tree version
  | .importDocument functions document version =>
      Creation.importDocument functions document version

/-! ## Failures -/

/-- Two stores that differ in the count of reads at most. -/
def OnlyRead (before after : Store) : Prop := after = { before with fetches := after.fetches }

theorem Harmless.onlyRead {step : Action α} (harmless : Harmless step)
    (keeps : Keeps refused step) (failed : step store = (.error cause, after)) :
    OnlyRead store after := by
  have records_kept := harmless _ _ _ failed
  have refused_kept : after.refused = store.refused := by
    have same := keeps store
    rw [failed] at same
    exact same
  rcases after with ⟨records, fetches, refused⟩
  rcases records_kept with rfl
  rcases refused_kept with rfl
  rfl

/-- After the last step that may fail, what is given may still be put together. -/
theorem Harmless.andThen {step : Action α} {next : α → Action β} (harmless : Harmless step)
    (succeeds : ∀ value store, ∃ result after, next value store = (.ok result, after)) :
    Harmless (step >>= next) := by
  intro store cause after failed
  rcases outcome : step store with ⟨cause' | value, middle⟩
  · rw [bind_of_error outcome] at failed
    rcases outcome_eq.mp failed with ⟨_, rfl⟩
    exact harmless _ _ _ outcome
  · rcases succeeds value middle with ⟨result, last, done⟩
    rw [bind_of_ok outcome, done] at failed
    cases failed

theorem harmless_bindVariables (tree : Sketch) (external : List ContentRef) :
    Harmless (bindVariables tree external) := by
  refine (readsOnly_externalNames _ _).bind_harmless fun names => ?_
  intro store cause after failed
  rcases exists_defineNames (newNames names tree) with ⟨names', parts, middle, done, _⟩
  rw [bind_of_ok done] at failed
  cases failed

theorem harmless_createContent (functions : Option Library) (data : Fields) :
    Harmless (createContent functions data) := by
  refine Tree.ReadsOnly.bind_harmless (fun _ => rfl) fun kind => ?_
  dsimp only
  split
  · intro store cause after failed
    cases failed
  · refine Tree.ReadsOnly.bind_harmless (fun _ => rfl) fun content => ?_
    exact (harmless_write _).andThen fun ref store => ⟨_, store, rfl⟩

theorem Operation.harmless (operation : Operation α) : Harmless operation.run := by
  cases operation with
  | addRoot content => exact harmless_transaction _
  | addChild parent content => exact harmless_transaction _
  | attachRoot content => exact harmless_write fun records => records.saveNode none 0 content
  | attachChild parent content => exact harmless_attachChild _ _
  | moveChild parent child index => exact harmless_transaction _
  | cloneTree node => exact harmless_transaction _
  | deleteTree node => exact harmless_transaction _
  | declareVariables interface => exact harmless_transaction _
  | bindVariables tree external => exact harmless_bindVariables _ _
  | createContent functions data => exact harmless_createContent _ _
  | create functions tree version => exact harmless_create _ _ _
  | importDocument functions document version => exact harmless_importDocument _ _ _

theorem Operation.keepsRefusals (operation : Operation α) : Keeps refused operation.run := by
  cases operation with
  | addRoot content => exact keeps_addRoot _
  | addChild parent content => exact keeps_addChild _ _
  | attachRoot content => exact keeps_write _
  | attachChild parent content => exact keeps_attachChild _ _
  | moveChild parent child index => exact keeps_moveChild _ _ _
  | cloneTree node => exact keeps_cloneTree _
  | deleteTree node => exact keeps_deleteTree _
  | declareVariables interface => exact interface.keeps_declareVariables
  | bindVariables tree external => exact keeps_bindVariables _ _
  | createContent functions data => exact keeps_createContent _ _
  | create functions tree version => exact keeps_create _ _ _
  | importDocument functions document version => exact keeps_importDocument _ _ _

theorem Operation.onlyRead (operation : Operation α)
    (failed : operation.run store = (.error cause, after)) : OnlyRead store after :=
  operation.harmless.onlyRead operation.keepsRefusals failed

/-! ## Inside of a transaction -/

/-- Carries out a step and gives what comes of it, so that a failure can be looked at. -/
def attempt (step : Action α) : Action (Except Error α) := fun store =>
  (.ok (step store).1, (step store).2)

theorem transaction_attempt (step : β → Action α) {before : Action β}
    {later : β → Except Error α → Action γ} {value : β} {middle failed committed : Store}
    {result : γ} (first : before store = (.ok value, middle))
    (fails : step value middle = (.error cause, failed)) (undone : OnlyRead middle failed)
    (commits : transaction (do
      let value ← before
      let answer ← attempt (step value)
      later value answer) store = (.ok result, committed)) :
    later value (.error cause) { middle with fetches := failed.fetches } =
      (.ok result, committed) := by
  have attempted : attempt (step value) middle = (.ok (.error cause), failed) := by
    unfold attempt
    rw [fails]
  rw [transaction_eq_ok, bind_of_ok first, bind_of_ok attempted] at commits
  rw [← undone]
  exact commits

/-! ## In place -/

/-- A step on something that the caller keeps and on the store. -/
abbrev InPlace (δ α : Type) := ExceptT Error (StateM (δ × Store)) α

namespace InPlace

/-- A step on the store alone. -/
def onStore (step : Action α) : InPlace δ α := fun state =>
  ((step state.2).1, state.1, (step state.2).2)

/-- What is kept. -/
def kept : InPlace δ δ := fun state => (.ok state.1, state)

/-- Changes what is kept. -/
def change (update : δ → δ) : InPlace δ Unit := fun state => (.ok (), update state.1, state.2)

/-- Removes an entry for each of some keys from the data that are kept. -/
def eraseAll : List String → InPlace Fields Unit
  | [] => pure ()
  | key :: rest => do
    change (Entries.erase key)
    eraseAll rest

theorem onStore_eq {step : Action α} {given : δ} {answer : Except Error α}
    (outcome : step store = (answer, after)) :
    onStore step (given, store) = (answer, given, after) := by
  unfold onStore
  rw [outcome]

theorem eraseAll_eq (keys : List String) (data : Fields) :
    eraseAll keys (data, store) =
      (.ok (), keys.foldl (fun data key => Entries.erase key data) data, store) := by
  induction keys generalizing data with
  | nil => rfl
  | cons key rest ih => exact ih (Entries.erase key data)

end InPlace

namespace Creation

open InPlace

/-- Binds the variables of the tree that is kept. -/
def bindVariablesInPlace (external : List ContentRef) : InPlace Sketch (List Sketch) := do
  let names ← onStore (externalNames .empty external)
  let tree ← kept
  let (names, definitions) ← onStore (defineNames names (newNames names tree))
  change (Sketch.mapData (bindData names))
  pure definitions

/-- Stores the object that the data that are kept describe. -/
def createContentInPlace (functions : Option Library) : InPlace Fields ContentRef := do
  let kind ← onStore (give (kindOf (← kept)))
  let ref ←
    match (Entries.get? "object_id" (← kept)).bind Json.asInt? with
    | some id => pure (⟨kind, ⟨id⟩⟩ : ContentRef)
    | none => do
      let content ← onStore (give (contentOf functions kind (← kept)))
      onStore (saveObject content)
  eraseAll literalKeys
  change (Entries.insert "object_id" (.int ref.id.val))
  change (Entries.insert "content_type" (.str ref.kind.tag))
  pure ref

/-- The tree with its variables bound stands in the place of the tree that was given, if there is
one. -/
theorem bindVariablesInPlace_eq (external : List ContentRef) (tree : Sketch) (store : Store) :
    bindVariablesInPlace external (tree, store) =
      match bindVariables tree external store with
      | (.ok (definitions, bound), after) => (.ok definitions, bound, after)
      | (.error cause, after) => (.error cause, tree, after) := by
  unfold bindVariablesInPlace bindVariables
  rcases named : externalNames .empty external store with ⟨cause | names, middle⟩
  · rw [bind_of_error (onStore_eq named), bind_of_error named]
  · rcases exists_defineNames (newNames names tree) with ⟨names', parts, last, defined, _⟩
    have read : kept (tree, middle) = (.ok tree, tree, middle) := rfl
    rw [bind_of_ok (onStore_eq named), bind_of_ok named, bind_of_ok read,
      bind_of_ok (onStore_eq defined), bind_of_ok defined]
    rfl

/-- The data of the stored object stand in the place of the data that were given, if it is
stored. -/
theorem createContentInPlace_eq (functions : Option Library) (data : Fields) (store : Store) :
    createContentInPlace functions (data, store) =
      match createContent functions data store with
      | (.ok (ref, stored), after) => (.ok ref, stored, after)
      | (.error cause, after) => (.error cause, data, after) := by
  have read : kept (data, store) = (.ok data, data, store) := rfl
  have rest (ref : ContentRef) (store : Store) : (do
      eraseAll literalKeys
      change (Entries.insert "object_id" (.int ref.id.val))
      change (Entries.insert "content_type" (.str ref.kind.tag))
      pure ref : InPlace Fields ContentRef) (data, store) =
        (.ok ref, storedData ref data, store) := by
    rw [bind_of_ok (eraseAll_eq literalKeys data)]
    rfl
  unfold createContentInPlace createContent
  rw [bind_of_ok read]
  cases kinds : kindOf data with
  | error cause => rfl
  | ok kind =>
      have given : give (.ok kind) store = (.ok kind, store) := rfl
      rw [bind_of_ok (onStore_eq given), bind_of_ok given, bind_of_ok read]
      cases address : (Entries.get? "object_id" data).bind Json.asInt? with
      | some id => exact rest _ store
      | none =>
          dsimp only
          rw [bind_of_ok read]
          cases described : contentOf functions kind data with
          | error cause => rfl
          | ok content =>
              have given : give (.ok content) store = (.ok content, store) := rfl
              have saved : saveObject content store = (.ok _, _) :=
                saveObject_eq_ok.mpr ⟨rfl, rfl⟩
              rw [bind_of_ok (onStore_eq given), bind_of_ok given, bind_of_ok (onStore_eq saved),
                bind_of_ok saved]
              exact rest _ _

end Creation

/-- Whatever a store holds and refuses, an operation that fails leaves it as it was, apart from the
count of reads.  A transaction around the operation that commits in spite of the failure goes on
from what the operation found.  A tree or data that are changed in place are left as given. -/
theorem all_or_nothing :
    (∀ {α : Type} (operation : Operation α) {store after : Store} {cause : Error},
      operation.run store = (.error cause, after) → OnlyRead store after) ∧
    (∀ {α β γ : Type} (operation : β → Operation α) (before : Action β)
      (later : β → Except Error α → Action γ) {value : β} {result : γ} {cause : Error}
      {store middle failed committed : Store},
      before store = (.ok value, middle) →
      (operation value).run middle = (.error cause, failed) →
      transaction (do
        let value ← before
        let answer ← attempt (operation value).run
        later value answer) store = (.ok result, committed) →
      later value (.error cause) { middle with fetches := failed.fetches } =
        (.ok result, committed)) ∧
    (∀ (external : List ContentRef) {tree tree' : Sketch} {store after : Store} {cause : Error},
      bindVariablesInPlace external (tree, store) = (.error cause, tree', after) →
      tree' = tree ∧ OnlyRead store after) ∧
    (∀ (functions : Option Library) {data data' : Fields} {store after : Store} {cause : Error},
      createContentInPlace functions (data, store) = (.error cause, data', after) →
      data' = data ∧ OnlyRead store after) := by
  refine ⟨fun operation _ _ _ failed => operation.onlyRead failed, ?_, ?_, ?_⟩
  · intro α β γ operation before later value result cause store middle failed committed first fails
      commits
    have undone := (operation value).onlyRead fails
    exact transaction_attempt (fun value => (operation value).run) first fails undone commits
  · intro external tree tree' store after cause failed
    rw [bindVariablesInPlace_eq] at failed
    rcases outcome : bindVariables tree external store with ⟨cause' | ⟨parts, bound⟩, last⟩
    · rw [outcome] at failed
      rcases outcome_eq.mp failed with ⟨_, same⟩
      rcases Prod.mk.inj same with ⟨rfl, rfl⟩
      exact ⟨rfl, (Operation.bindVariables tree external).onlyRead outcome⟩
    · rw [outcome] at failed
      cases failed
  · intro functions data data' store after cause failed
    rw [createContentInPlace_eq] at failed
    rcases outcome : createContent functions data store with ⟨cause' | ⟨ref, stored⟩, last⟩
    · rw [outcome] at failed
      rcases outcome_eq.mp failed with ⟨_, same⟩
      rcases Prod.mk.inj same with ⟨rfl, rfl⟩
      exact ⟨rfl, (Operation.createContent functions data).onlyRead outcome⟩
    · rw [outcome] at failed
      cases failed

/-- A block of two texts, the second of which is not to be deleted. -/
def twoTexts : Store :=
  { (addChild ⟨1⟩ (.text "b")
      (addChild ⟨1⟩ (.text "a") (addRoot none Store.empty).2).2).2 with
    refused := [⟨.text, ⟨2⟩⟩] }

/-- The first text is deleted before the second one is refused, and it comes back.  A variable of
an interface cannot be a text, and data without a kind describe nothing. -/
theorem all_or_nothing_twoTexts :
    (∃ cause after, deleteTree ⟨⟨1⟩, none, 0, none⟩ twoTexts = (.error cause, after) ∧
      OnlyRead twoTexts after) ∧
    (∃ root committed, transaction (do
        let root ← attachRoot none
        let _ ← attempt (deleteTree ⟨⟨1⟩, none, 0, none⟩)
        pure root) twoTexts = (.ok root, committed) ∧
      committed.records = (attachRoot none twoTexts).2.records) ∧
    (∃ cause tree after, bindVariablesInPlace [⟨.text, ⟨1⟩⟩] (.block [], twoTexts) =
      (.error cause, tree, after) ∧ tree = .block []) ∧
    (∃ cause data after, createContentInPlace none ([("value", .int 1)], twoTexts) =
      (.error cause, data, after) ∧ data = [("value", .int 1)]) := by
  have refused : (deleteTree ⟨⟨1⟩, none, 0, none⟩ twoTexts).1 =
      .error (.store (.cannotDelete ⟨.text, ⟨2⟩⟩)) := by cbv
  have refused_later :
      (deleteTree ⟨⟨1⟩, none, 0, none⟩ (attachRoot none twoTexts).2).1 =
        .error (.store (.cannotDelete ⟨.text, ⟨2⟩⟩)) := by cbv
  rcases all_or_nothing with ⟨alone, enclosed, bound, created⟩
  have failed : deleteTree ⟨⟨1⟩, none, 0, none⟩ twoTexts =
      (.error (.store (.cannotDelete ⟨.text, ⟨2⟩⟩)), _) := Prod.ext refused rfl
  have attached : attachRoot none twoTexts =
      (.ok ⟨⟨4⟩, none, 0, none⟩, (attachRoot none twoTexts).2) := rfl
  have failed_later : deleteTree ⟨⟨1⟩, none, 0, none⟩ (attachRoot none twoTexts).2 =
      (.error (.store (.cannotDelete ⟨.text, ⟨2⟩⟩)), _) := Prod.ext refused_later rfl
  have commits : transaction (do
      let root ← attachRoot none
      let _ ← attempt (deleteTree ⟨⟨1⟩, none, 0, none⟩)
      pure root) twoTexts = (.ok ⟨⟨4⟩, none, 0, none⟩, _) := transaction_eq_ok.mpr rfl
  have kept := enclosed (fun _ => .deleteTree ⟨⟨1⟩, none, 0, none⟩) (attachRoot none)
    (fun root _ => pure root) attached failed_later commits
  have unbound : bindVariablesInPlace [⟨.text, ⟨1⟩⟩] (.block [], twoTexts) =
      (.error (.creation (.notADefinition ⟨.text, ⟨1⟩⟩)), .block [], twoTexts) := rfl
  have unknown : createContentInPlace none ([("value", .int 1)], twoTexts) =
      (.error (.creation (.missingData "content_type")), [("value", .int 1)], twoTexts) := rfl
  refine ⟨⟨_, _, failed, alone (.deleteTree ⟨⟨1⟩, none, 0, none⟩) failed⟩, ?_, ?_, ?_⟩
  · exact ⟨_, _, commits, (congrArg Store.records (pure_eq_ok.mp kept).2).symm⟩
  · exact ⟨_, _, _, unbound, (bound _ unbound).1⟩
  · exact ⟨_, _, _, unknown, (created _ unknown).1⟩

end RuleTree
