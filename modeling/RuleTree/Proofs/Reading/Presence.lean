import RuleTree.Proofs.Block.Drawing
import RuleTree.Proofs.Evaluation.Created
import RuleTree.Proofs.Tree.Deletion

/-!
# Nothing that is read is missing

Where everything that a tree needs is stored, evaluating the tree, writing it as a document and
deleting it may fail for many reasons, but never because an object is not found
(`Reading.Sound.interpret_found`, `Reading.Sound.build_found`, `Reading.Sound.deleteTree_found`).
-/

namespace RuleTree

open Step Records Reading

/-- The cause is not a missing object. -/
def Error.Found (cause : Error) : Prop := ∀ ref, cause ≠ .store (.objectNotFound ref)

variable {records : Records}

theorem Step.Yields.ends {σ α : Type} {step : ExceptT Error (StateM σ) α} {value : α}
    {fails : Error → Prop} (yields : Yields step value) : Ends step (· = value) fails := by
  intro state
  rcases yields state with ⟨after, done⟩
  exact .inl ⟨value, by rw [done], rfl⟩

/-- The children of a node need nothing that is missing either. -/
theorem Reading.Sound.children (linked : Linked records) {node child : Node}
    (sound : Sound records node)
    (member : child ∈ (records.orderedChildren node.id).filterMap records.nodes.get?) :
    Sound records child := by
  rcases List.mem_filterMap.mp member with ⟨id, listed, found⟩
  rcases linked.keyed found with rfl
  exact sound.child (mem_orderedChildren.mp listed) found

/-! ## Evaluating -/

namespace Evaluation

theorem Gives.ends {α : Type} {step : EvalM α} {value : α} {fails : Error → Prop}
    (gives : Gives step value) : Ends step (· = value) fails := by
  intro run
  rcases gives run with ⟨after, done, _⟩
  exact .inl ⟨value, by rw [done], rfl⟩

theorem ends_give {α : Type} (answer : Except EvaluationError α) :
    Ends (give answer) (fun _ => True) Error.Found := by
  intro run
  cases answer with
  | ok value => exact .inl ⟨value, rfl, trivial⟩
  | error cause => exact .inr ⟨.evaluation cause, rfl, by simp [Error.Found]⟩

theorem ends_call [Host] (title : String) (args : List Value) :
    Ends (call title args) (fun _ => True) Error.Found := by
  intro run
  unfold call
  rcases run.context.library.callIn title args run.context with ⟨cause | value, after⟩
  · exact .inr ⟨.evaluation cause, rfl, by simp [Error.Found]⟩
  · exact .inl ⟨value, rfl, trivial⟩

theorem ends_lookup (definition : ObjectId) :
    Ends (lookup records .direct definition) (fun _ => True) Error.Found := by
  have now : Ends bindings (fun _ => True) Error.Found :=
    fun run => .inl ⟨run.context.bindings, rfl, trivial⟩
  apply now.bind
  intro values _
  cases values.get? definition with
  | some value => exact .pure trivial
  | none =>
      have name : Ends (variableName records .direct definition) (fun _ => True) Error.Found := by
        intro run
        unfold variableName
        split
        · exact .inl ⟨_, rfl, trivial⟩
        · exact .inl ⟨_, rfl, trivial⟩
      apply name.bind
      intro text _
      apply Ends.throw
      simp [Error.Found]

theorem ends_results {evaluate : Node → EvalM Value} {nodes : List Node}
    (each : ∀ node ∈ nodes, Ends (evaluate node) (fun _ => True) Error.Found) :
    Ends (results evaluate nodes) (fun _ => True) Error.Found := by
  induction nodes with
  | nil => exact .pure trivial
  | cons node rest ih =>
      apply (each node (by simp)).bind
      intro value _
      apply (ih fun other member => each other (by simp [member])).bind
      intro values _
      exact .pure trivial

/-- The object of a node is there, if the node wraps one. -/
theorem ends_content {node : Node} (sound : Sound records node) :
    Ends (read (Reading.content records .direct node)) (fun _ => True) Error.Found := by
  cases wraps : node.content with
  | none =>
      have gives : Ends (read (Reading.content records .direct node)) _ Error.Found :=
        (gives_no_content wraps).ends
      intro run
      rcases gives run with ⟨value, done, _⟩ | failed
      · exact .inl ⟨value, done, trivial⟩
      · exact .inr failed
  | some ref =>
      rcases sound.supplied node.id .refl node ref sound.stored wraps with ⟨content, found, _⟩
      have gives : Ends _ _ Error.Found := (gives_content wraps found).ends
      intro run
      rcases gives run with ⟨value, done, _⟩ | failed
      · exact .inl ⟨value, done, trivial⟩
      · exact .inr failed

theorem ends_statement [Host] {evaluate : Node → EvalM Value} {content : Content}
    {children : List Node}
    (sound : ∀ child ∈ children, Sound records child)
    (each : ∀ child ∈ children, Ends (evaluate child) (fun _ => True) Error.Found) :
    Ends (statement records .direct evaluate content children) (fun _ => True)
      Error.Found := by
  have applied : Ends (results evaluate children >>= fun args => give (content.evaluate args))
      (fun _ => True) Error.Found :=
    (ends_results each).bind fun args _ => ends_give _
  cases content with
  | assignment =>
      simp only [statement]
      split
      · rename_i target expression
        have aimed : Ends (assignmentTarget records .direct target) (fun _ => True)
            Error.Found := by
          apply (ends_content (sound target (by simp))).bind
          intro content _
          split
          · exact .pure trivial
          · apply Ends.throw
            simp [Error.Found]
          · apply Ends.throw
            simp [Error.Found]
        apply aimed.bind
        intro definition _
        apply (each expression (by simp)).bind
        intro value _
        have bound : Ends (bind definition value) (fun _ => True) Error.Found :=
          fun _ => .inl ⟨(), rfl, trivial⟩
        apply bound.bind
        intro _ _
        exact .pure trivial
      · apply Ends.throw
        simp [Error.Found]
  | use definition => exact (ends_give _).bind fun _ _ => ends_lookup definition
  | call title => exact (ends_results each).bind fun args _ => ends_call title args
  | _ => exact applied

theorem ends_node [Host] (linked : Linked records) {depth : Nat} {node : Node}
    (sound : Sound records node) :
    Ends (Evaluation.node records .direct depth node) (fun _ => True) Error.Found := by
  induction depth generalizing node with
  | zero =>
      apply Ends.throw
      simp [Error.Found]
  | succ depth ih =>
      have children : Ends _ _ Error.Found := (gives_children linked sound.stored).ends
      unfold Evaluation.node
      apply (ends_content sound).bind
      intro content _
      cases content with
      | none =>
          simp only
          split
          · apply children.bind
            rintro nodes rfl
            apply (ends_results fun child member => ih (sound.children linked member)).bind
            intro values _
            exact .pure trivial
          · apply Ends.throw
            simp [Error.Found]
      | some content =>
          apply children.bind
          rintro nodes rfl
          exact ends_statement (fun child member => sound.children linked member)
            fun child member => ih (sound.children linked member)

end Evaluation

theorem Reading.Sound.interpret_found [Host] (tidy : Tidy records) {node : Node}
    (sound : Sound records node) (context : Context) {cause : Error}
    (failed : (interpret records node context).1 = .error cause) : cause.Found := by
  have ends : Ends (evaluate records .direct context.library node) (fun _ => True) Error.Found :=
    fun _ => Evaluation.ends_node tidy.linked sound _
  rw [(interpret_direct tidy sound context).1] at failed
  exact ends.fails_of_error failed

/-! ## Writing documents -/

namespace Block

theorem ends_children (linked : Linked records) {node : Node} (sound : Sound records node) :
    Ends (visibleChildren records .direct node)
      (fun children => ∀ child ∈ children, Sound records child) Error.Found := by
  have yields : Ends _ _ Error.Found := (yields_children linked sound.stored).ends
  intro reading
  rcases yields reading with ⟨children, done, rfl⟩ | failed
  · refine .inl ⟨_, done, fun child member => ?_⟩
    exact sound.children linked (List.mem_filter.mp member).1
  · exact .inr failed

theorem ends_slotElements {write : Node → ReadM Element} {children : List (Node × String)}
    (contents : ∀ child ∈ children,
      Ends (Reading.content records .direct child.1) (fun _ => True) Error.Found)
    (each : ∀ child ∈ children, Ends (write child.1) (fun _ => True) Error.Found) :
    Ends (slotElements records .direct write children) (fun _ => True) Error.Found := by
  induction children with
  | nil => exact .pure trivial
  | cons child rest ih =>
      rcases child with ⟨child, slot⟩
      apply (contents (child, slot) (by simp)).bind
      intro content _
      apply (each (child, slot) (by simp)).bind
      intro block _
      apply (ih (fun other member => contents other (by simp [member]))
        fun other member => each other (by simp [member])).bind
      intro others _
      exact .pure trivial

theorem ends_chainElement {write : Node → ReadM Element} {nodes : List Node}
    (each : ∀ node ∈ nodes, Ends (write node) (fun _ => True) Error.Found) :
    Ends (chainElement write nodes) (fun _ => True) Error.Found := by
  induction nodes with
  | nil => exact .pure trivial
  | cons node rest ih =>
      apply (each node (by simp)).bind
      intro block _
      apply (ih fun other member => each other (by simp [member])).bind
      intro others _
      exact .pure trivial

theorem ends_fillSlots {write : Node → ReadM Element} {node : Node} {content : Content}
    {children : List Node} {slots : List String}
    (contents : ∀ child ∈ children,
      Ends (Reading.content records .direct child) (fun _ => True) Error.Found)
    (each : ∀ child ∈ children, Ends (write child) (fun _ => True) Error.Found) :
    Ends (fillSlots records .direct write node content children slots) (fun _ => True)
      Error.Found := by
  unfold fillSlots
  split
  · apply Ends.throw
    simp [missingSlot, Error.Found]
  · split
    · apply Ends.throw
      simp [Error.Found]
    · apply ends_slotElements
      · exact fun child member => contents child.1 (List.of_mem_zip member).1
      · exact fun child member => each child.1 (List.of_mem_zip member).1

/-- Besides the object of a stored node, the definition is there that the object names. -/
theorem ends_content {node : Node} (sound : Sound records node) :
    Ends (Reading.content records .direct node)
      (fun content => ∀ definition, content = some (.use definition) →
        ∃ object, records.objects.get? ⟨.definition, definition⟩ = some object) Error.Found := by
  cases wraps : node.content with
  | none =>
      have bare : Reading.content records .direct node = pure none := by
        simp only [Reading.content, wraps]
      rw [bare]
      exact .pure (by simp)
  | some ref =>
      rcases sound.supplied node.id .refl node ref sound.stored wraps with ⟨content, found, defined⟩
      have yields : Ends _ _ Error.Found := (yields_content wraps found).ends
      intro reading
      rcases yields reading with ⟨value, done, rfl⟩ | failed
      · refine .inl ⟨_, done, ?_⟩
        rintro definition same
        cases same
        exact defined definition rfl
      · exact .inr failed

theorem ends_variableName {definition : ObjectId} {object : Content}
    (found : records.objects.get? ⟨.definition, definition⟩ = some object) :
    Ends (variableName records .direct definition) (fun _ => True) Error.Found := by
  have fetched : Yields (Reading.object records .direct ⟨.definition, definition⟩) object :=
    fun _ => ⟨_, Reading.fetch_eq_ok.mpr ⟨object_eq_ok.mpr found, rfl⟩⟩
  apply fetched.ends.bind
  rintro object rfl
  split
  · exact .pure trivial
  · apply Ends.throw
    simp [Error.Found]

theorem ends_partElements {write : Node → ReadM Element} {node : Node} {block : OperatorBlock}
    {children : List Node} {content : Content}
    (named : ∀ definition, some content = some (.use definition) →
      ∃ object, records.objects.get? ⟨.definition, definition⟩ = some object)
    (sound : ∀ child ∈ children, Sound records child)
    (each : ∀ child ∈ children, Ends (write child) (fun _ => True) Error.Found) :
    Ends (partElements records .direct write node block children content) (fun _ => True)
      Error.Found := by
  have contents : ∀ child ∈ children,
      Ends (Reading.content records .direct child) (fun _ => True) Error.Found := by
    intro child member reading
    rcases ends_content (sound child member) reading with ⟨value, done, _⟩ | failed
    · exact .inl ⟨value, done, trivial⟩
    · exact .inr failed
  have filled (content : Content) (slots : List String) :
      Ends (fillSlots records .direct write node content children slots) (fun _ => True)
        Error.Found := ends_fillSlots contents each
  cases content with
  | float x =>
      simp only [partElements]
      split
      · exact .pure trivial
      · apply Ends.throw
        simp [Error.Found]
  | use definition =>
      rcases named definition rfl with ⟨object, found⟩
      exact (ends_variableName found).bind fun _ _ => .pure trivial
  | assignment =>
      simp only [partElements]
      cases children with
      | nil =>
          apply Ends.throw
          simp [missingSlot, Error.Found]
      | cons target others =>
          have aimed : Ends (targetName records .direct node target) (fun _ => True)
              Error.Found := by
            apply (ends_content (sound target (by simp))).bind
            intro content given
            split
            · rcases given _ rfl with ⟨object, found⟩
              exact ends_variableName found
            · apply Ends.throw
              simp [missingSlot, Error.Found]
          apply aimed.bind
          intro name _
          apply Ends.bind (ends_fillSlots
            (fun child member => contents child (List.mem_cons_of_mem _ member))
            fun child member => each child (List.mem_cons_of_mem _ member))
          intro slots _
          exact .pure trivial
  | binary _ => exact (filled _ _).bind fun _ _ => .pure trivial
  | unary _ => exact (filled _ _).bind fun _ _ => .pure trivial
  | call title => exact (filled _ _).bind fun _ _ => .pure trivial
  | definition _ _ =>
      apply Ends.throw
      simp [Error.Found]
  | _ => exact .pure trivial

theorem ends_blockElement (linked : Linked records) {ids : Bool} {depth : Nat} {node : Node}
    (sound : Sound records node) :
    Ends (blockElement records .direct ids depth node) (fun _ => True) Error.Found := by
  induction depth generalizing node with
  | zero =>
      apply Ends.throw
      simp [Error.Found]
  | succ depth ih =>
      unfold blockElement
      apply (ends_content sound).bind
      intro content named
      cases content with
      | none =>
          apply Ends.throw
          simp [Error.Found]
      | some content =>
          apply (ends_children linked sound).bind
          intro children children_sound
          simp only
          split
          · apply Ends.throw
            simp [Error.Found]
          · apply (ends_partElements named children_sound fun child member =>
              ih (children_sound child member)).bind
            intro parts _
            exact .pure trivial

end Block

theorem Reading.Sound.build_found (tidy : Tidy records) {node : Node} (sound : Sound records node)
    (access : Access) (ids : Bool) {cause : Error}
    (failed : (Block.build records access ids node Reading.start).1 = .error cause) :
    cause.Found := by
  have write {node : Node} (sound : Sound records node) :
      Ends (Block.blockElement records .direct ids records.depthBound node) (fun _ => True)
        Error.Found := Block.ends_blockElement tidy.linked sound
  have document : Ends (Block.document records .direct ids node) (fun _ => True) Error.Found := by
    unfold Block.document
    dsimp only
    split
    · apply (Block.ends_children tidy.linked sound).bind
      intro children children_sound
      apply (Block.ends_chainElement fun child member => write (children_sound child member)).bind
      intro blocks _
      exact .pure trivial
    · apply (write sound).bind
      intro block _
      exact .pure trivial
  have built : Ends (Block.build records .direct ids node) (fun _ => True) Error.Found :=
    document.bind fun _ _ => .pure trivial
  cases access with
  | direct => exact built.fails_of_error failed
  | cached =>
      rcases Block.alike_build tidy ids sound Reading.start Reading.start Snapshot.faithful_empty
        with ⟨_, texts⟩
      rw [texts.eq fun _ _ agree => agree] at failed
      exact built.fails_of_error failed

/-! ## Deleting -/

namespace Store

variable {α : Type}

theorem ends_fetch {read : Records → Except StoreError α}
    (found : ∀ records cause, read records = .error cause → (Error.store cause).Found) :
    Ends (fetch read) (fun _ => True) Error.Found := by
  intro store
  unfold fetch
  cases answer : read store.records with
  | ok value => exact .inl ⟨value, rfl, trivial⟩
  | error cause => exact .inr ⟨.store cause, rfl, found _ _ answer⟩

theorem ends_write {update : Records → Except StoreError (α × Records)}
    (found : ∀ records cause, update records = .error cause → (Error.store cause).Found) :
    Ends (write update) (fun _ => True) Error.Found := by
  intro store
  unfold write
  cases answer : update store.records with
  | ok value => exact .inl ⟨value.1, rfl, trivial⟩
  | error cause => exact .inr ⟨.store cause, rfl, found _ _ answer⟩

end Store

namespace Tree

open Store

/-- Objects that are there are deleted, or the store refuses to delete one of them. -/
theorem found_deleteObjects {refs : List ContentRef} {store : Store} (distinct : refs.Nodup)
    (present : ∀ ref ∈ refs, ∃ content, store.records.objects.get? ref = some content)
    {cause : Error} (failed : (deleteObjects refs store).1 = .error cause) : cause.Found := by
  induction refs generalizing store with
  | nil => cases failed
  | cons first rest ih =>
      rcases List.nodup_cons.mp distinct with ⟨new, distinct⟩
      by_cases refused : first ∈ store.refused
      · have stopped : deleteObject first store =
            (.error (.store (.cannotDelete first)), store) := by
          unfold deleteObject
          rw [if_pos refused]
        rw [deleteObjects, bind_of_error stopped] at failed
        cases failed
        simp [Error.Found]
      · rcases present first (by simp) with ⟨content, found⟩
        have deleted : deleteObject first store = (.ok (), { store with records :=
            { store.records with objects := store.records.objects.erase first } }) :=
          deleteObject_eq_ok.mpr ⟨refused, by simp [Table.contains, found], rfl⟩
        rw [deleteObjects, bind_of_ok deleted] at failed
        apply ih distinct ?_ failed
        intro ref member
        have differ : first ≠ ref := by
          rintro rfl
          exact new member
        simp only [Table.get?_erase, if_neg differ]
        exact present ref (List.mem_cons_of_mem _ member)

theorem ends_renumber (ordered : List NodeId) :
    Ends (renumber ordered) (fun _ => True) Error.Found := by
  unfold renumber
  generalize 0 = position
  induction ordered generalizing position with
  | nil => exact .pure trivial
  | cons id rest ih =>
      have first : Ends (updatePosition id position) (fun _ => True) Error.Found := by
        apply ends_write
        intro records cause failed
        unfold setPosition at failed
        split at failed <;> cases failed
        simp [Error.Found]
      exact first.bind fun _ _ => ih _

/-- Taking nodes out of a store reads no objects. -/
theorem ends_closing (root : NodeId) (parent : Option NodeId) :
    Ends (deleteSubtree root >>= fun _ => match parent with
      | some parent => loadChildren parent >>= renumber
      | none => pure ()) (fun _ => True) Error.Found := by
  have taken : Ends (deleteSubtree root) (fun _ => True) Error.Found := by
    apply ends_write
    intro records cause failed
    unfold removeSubtree at failed
    split at failed <;> cases failed
    simp [Error.Found]
  apply taken.bind
  intro _ _
  cases parent with
  | none => exact .pure trivial
  | some parent =>
      have siblings : Ends (loadChildren parent) (fun _ => True) Error.Found := by
        apply ends_fetch
        intro records cause failed
        unfold childrenOf at failed
        split at failed <;> cases failed
        simp [Error.Found]
      exact siblings.bind fun ordered _ => ends_renumber ordered

end Tree

theorem Reading.Sound.deleteTree_found {store : Store} (tidy : Tidy store.records) {node : Node}
    (sound : Sound store.records node) {cause : Error}
    (failed : (Tree.deleteTree node store).1 = .error cause) : cause.Found := by
  replace failed := Store.fails_transaction failed
  rcases tidy.linked.subtree_eq sound.stored with ⟨rest, listed, listing⟩
  have referenced {ref : ContentRef}
      (member : ref ∈ Tree.distinct ((node :: rest).filterMap Node.content)) :
      ∃ content, store.records.objects.get? ref = some content ∧
        Snapshot.Defined store.records content := by
    rw [Tree.distinct, List.mem_eraseDups,
      mem_contents_iff tidy.linked sound.stored listing] at member
    rcases member with ⟨id, other, within, found, wraps⟩
    exact sound.supplied id within other ref found wraps
  have freed : Tree.Finds store.records
      (Tree.freeDefinitions (Tree.distinct ((node :: rest).filterMap Node.content))) _ :=
    Tree.finds_freeDefinitions tidy.linked ?present ?defined
  case present =>
    intro ref member
    rcases referenced member with ⟨content, found, _⟩
    exact ⟨content, found⟩
  case defined =>
    intro ref member definition found
    rcases referenced member with ⟨content, found', defined⟩
    rw [found] at found'
    cases found'
    exact defined definition rfl
  rcases freed { store with fetches := store.fetches + 1 } rfl with ⟨free, fetches, done, free_iff⟩
  have loaded : Store.loadSubtree node.id store =
      (.ok (node :: rest), { store with fetches := store.fetches + 1 }) :=
    Store.fetch_eq_ok.mpr ⟨listed, rfl⟩
  rw [bind_of_ok loaded, bind_of_ok done] at failed
  generalize outcome : Tree.deleteObjects _ _ = deleted at failed
  rcases deleted with ⟨cause' | _, middle⟩
  · rw [bind_of_error outcome] at failed
    cases failed
    apply Tree.found_deleteObjects (Tree.nodup_distinct _) ?_ (congrArg Prod.fst outcome)
    intro ref member
    rcases List.mem_append.mp (List.mem_eraseDups.mp member) with wrapped | unused
    · rcases referenced wrapped with ⟨content, found, _⟩
      exact ⟨content, found⟩
    · rcases ((free_iff ref).mp unused).2.2.local_definition with ⟨name, found⟩
      exact ⟨_, found⟩
  · rw [bind_of_ok outcome] at failed
    exact (Tree.ends_closing node.id node.parent).fails_of_error failed

end RuleTree
