import RuleTree.Proofs.Evaluation.Created
import RuleTree.Proofs.Tree.Deletion

/-!
# Evaluating an image of a tree

A tree may have an image, in the same records or in others: a tree of the same shape around the same
objects, whose variables may name other definitions.  Where the definitions have the same values,
both trees have the same value (`Pictured.interpret_eq`).
-/

namespace RuleTree

open Step Records

/-- The same object, but a variable names another definition. -/
def Content.rename (rename : ObjectId → ObjectId) : Content → Content
  | .use target => .use (rename target)
  | content => content

theorem Content.rename_id (content : Content) : content.rename id = content := by
  cases content <;> rfl

namespace Records

/-- A variable of the tree names the definition. -/
def Names (records : Records) (root : NodeId) (definition : ObjectId) : Prop :=
  ∃ use, records.Referenced root use ∧ records.objects.get? use = some (.use definition)

/-- The nodes wrap the same object up to the definition that it names, or they are both blocks. -/
inductive Looks (left right : Records) (rename : ObjectId → ObjectId) (node node' : Node) : Prop
    where
  | block : node.content = none → node'.content = none → node.isRoot = true →
      node'.isRoot = true → Looks left right rename node node'
  | object {ref ref' : ContentRef} {content : Content} : node.content = some ref →
      node'.content = some ref' → left.objects.get? ref = some content →
        right.objects.get? ref' = some (content.rename rename) → Looks left right rename node node'

/-- Each node of a tree has an image that looks like it, and its children have the images of its
children in the same order. -/
structure Pictured (left right : Records) (root : NodeId) (image : NodeId → NodeId)
    (rename : ObjectId → ObjectId) : Prop where
  nodes : ∀ {id node}, left.Within root id → left.nodes.get? id = some node →
    ∃ node', right.nodes.get? (image id) = some node' ∧ Looks left right rename node node'
  children : ∀ {id}, left.Within root id →
    right.orderedChildren (image id) = (left.orderedChildren id).map image
  definitions : ∀ {definition}, left.Names root definition → ∃ name source source',
    left.objects.get? ⟨.definition, definition⟩ = some (.definition name source) ∧
      right.objects.get? ⟨.definition, rename definition⟩ = some (.definition name source')
  injective : ∀ {definition other}, left.Names root definition → left.Names root other →
    rename definition = rename other → definition = other

end Records

namespace Evaluation

variable {α β : Type} {left right : Records} {named : ObjectId → Prop}
  {rename : ObjectId → ObjectId} {library : Library} {evaluate evaluate' : Node → EvalM Value}

/-- Both contexts have the functions of the library, and what the first run knows of a named
definition, the second knows of its new name. -/
structure Matching (library : Library) (named : ObjectId → Prop) (rename : ObjectId → ObjectId)
    (run run' : Run) : Prop where
  left_library : run.context.library = library
  right_library : run'.context.library = library
  values : ∀ definition, named definition →
    run'.context.bindings.get? (rename definition) = run.context.bindings.get? definition

theorem Gives.bind_both {α' β' : Type} {step : EvalM α} {step' : EvalM α'} {value : α}
    {value' : α'} {next : α → EvalM β} {next' : α' → EvalM β'} {results : β → β' → Prop}
    (gives : Gives step value) (gives' : Gives step' value')
    (rest : Alike (Matching library named rename) results (next value) (next' value')) :
    Alike (Matching library named rename) results (step >>= next) (step' >>= next') := by
  intro run run' matching
  rcases gives run with ⟨after, done, same⟩
  rcases gives' run' with ⟨after', done', same'⟩
  rw [bind_of_ok done, bind_of_ok done']
  refine rest after after' ⟨?_, ?_, ?_⟩
  · rw [same, matching.left_library]
  · rw [same', matching.right_library]
  · rw [same, same']
    exact matching.values

theorem gives_variableName {records : Records} {definition : ObjectId} {name : String}
    {source : Option Source}
    (found : records.objects.get? ⟨.definition, definition⟩ = some (.definition name source)) :
    Gives (variableName records .direct definition) name := by
  intro run
  have fetched : Reading.object records .direct ⟨.definition, definition⟩ run.reading =
      (.ok (.definition name source),
        { run.reading with fetches := run.reading.fetches + 1 }) :=
    Reading.fetch_eq_ok.mpr ⟨object_eq_ok.mpr found, rfl⟩
  refine ⟨{ run with reading := { run.reading with fetches := run.reading.fetches + 1 } }, ?_, rfl⟩
  simp only [variableName, fetched]

theorem alike_renamed_lookup {definition : ObjectId} {name : String}
    {source source' : Option Source}
    (found : left.objects.get? ⟨.definition, definition⟩ = some (.definition name source))
    (found' : right.objects.get? ⟨.definition, rename definition⟩ =
      some (.definition name source')) (is_named : named definition) :
    Alike (Matching library named rename) Eq (lookup left .direct definition)
      (lookup right .direct (rename definition)) := by
  intro run run' matching
  have now : bindings run = (.ok run.context.bindings, run) := rfl
  have now' : bindings run' = (.ok run'.context.bindings, run') := rfl
  simp only [lookup, bind_of_ok now, bind_of_ok now', matching.values definition is_named]
  cases run.context.bindings.get? definition with
  | some value => exact ⟨matching, .ok rfl⟩
  | none =>
      refine Gives.bind_both (gives_variableName found) (gives_variableName found') ?_ run run'
        matching
      exact .throw _

theorem alike_renamed_bind
    (injective : ∀ {definition other}, named definition → named other →
      rename definition = rename other → definition = other)
    {definition : ObjectId} (is_named : named definition) (value : Value) :
    Alike (Matching library named rename) Eq (bind definition value)
      (bind (rename definition) value) := by
  intro run run' matching
  refine ⟨⟨matching.left_library, matching.right_library, fun other other_named => ?_⟩, .ok rfl⟩
  simp only [bind, Table.get?_insert]
  by_cases same : definition = other
  · simp [same]
  · have differ : rename definition ≠ rename other :=
      fun renamed => same (injective is_named other_named renamed)
    simp [same, differ, matching.values other other_named]

theorem alike_renamed_give (answer : Except EvaluationError α) :
    Alike (Matching library named rename) Eq (give answer) (give answer) := by
  intro run run' matching
  exact ⟨matching, .refl (fun _ => rfl) _⟩

theorem alike_renamed_call [Host] (detached : library.Detached) (title : String)
    (args : List Value) :
    Alike (Matching library named rename) Eq (call title args) (call title args) := by
  intro run run' matching
  simp only [call, matching.left_library, matching.right_library, detached.call_eq]
  exact ⟨matching, .refl (fun _ => rfl) _⟩

theorem alike_renamed_results {nodes nodes' : List Node}
    (each : List.Forall₂ (fun node node' =>
      Alike (Matching library named rename) Eq (evaluate node) (evaluate' node')) nodes nodes') :
    Alike (Matching library named rename) Eq (results evaluate nodes)
      (results evaluate' nodes') := by
  induction each with
  | nil => exact .pure rfl
  | cons here _ ih =>
      apply here.bind
      rintro value _ rfl
      apply ih.bind
      rintro values _ rfl
      exact .pure rfl

/-- The nodes wrap the same object, and the definition that it names is known. -/
def Twins (named : ObjectId → Prop) (rename : ObjectId → ObjectId) (left right : Records)
    (node node' : Node) : Prop :=
  ∃ ref ref' content, node.content = some ref ∧ node'.content = some ref' ∧
    left.objects.get? ref = some content ∧
      right.objects.get? ref' = some (content.rename rename) ∧
        ∀ definition, content = .use definition → named definition

theorem alike_renamed_target {target target' : Node}
    (twins : Twins named rename left right target target') :
    Alike (Matching library named rename)
      (fun definition definition' => definition' = rename definition ∧ named definition)
      (assignmentTarget left .direct target) (assignmentTarget right .direct target') := by
  rcases twins with ⟨ref, ref', content, wraps, wraps', found, found', known⟩
  apply Gives.bind_both (gives_content wraps found) (gives_content wraps' found')
  cases content with
  | use definition =>
      apply Alike.pure
      exact ⟨rfl, known definition rfl⟩
  | _ => apply Alike.throw

theorem alike_renamed_statement [Host] (detached : library.Detached)
    (definitions : ∀ {definition}, named definition → ∃ name source source',
      left.objects.get? ⟨.definition, definition⟩ = some (.definition name source) ∧
        right.objects.get? ⟨.definition, rename definition⟩ = some (.definition name source'))
    (injective : ∀ {definition other}, named definition → named other →
      rename definition = rename other → definition = other)
    {content : Content} (known : ∀ definition, content = .use definition → named definition)
    {children children' : List Node}
    (twins : List.Forall₂ (Twins named rename left right) children children')
    (each : List.Forall₂ (fun node node' =>
      Alike (Matching library named rename) Eq (evaluate node) (evaluate' node'))
        children children') :
    Alike (Matching library named rename) Eq
      (statement left .direct evaluate content children)
      (statement right .direct evaluate' (content.rename rename) children') := by
  have applied : Alike (Matching library named rename) Eq
      (results evaluate children >>= fun args => give (content.evaluate args))
      (results evaluate' children' >>= fun args => give (content.evaluate args)) := by
    apply (alike_renamed_results each).bind
    rintro args _ rfl
    exact alike_renamed_give _
  cases content with
  | assignment =>
      have length := each.length_eq
      rcases twins with _ | ⟨target, twins⟩
      · cases each
        exact .throw _
      rcases each with _ | ⟨_, each⟩
      rcases twins with _ | ⟨_, twins⟩
      · cases each
        exact .throw _
      rcases each with _ | ⟨expression, each⟩
      rcases twins with _ | ⟨_, _⟩
      · cases each
        apply (alike_renamed_target target).bind
        rintro definition _ ⟨rfl, is_named⟩
        apply expression.bind
        rintro value _ rfl
        apply (alike_renamed_bind injective is_named value).bind
        rintro _ _ _
        exact .pure rfl
      · simp only [statement, Content.rename, length]
        exact .throw _
  | use definition =>
      have is_named := known definition rfl
      rcases definitions is_named with ⟨name, source, source', found, found'⟩
      simp only [statement, Content.rename, each.length_eq]
      apply (alike_renamed_give _).bind
      rintro _ _ _
      exact alike_renamed_lookup found found' is_named
  | call title =>
      apply (alike_renamed_results each).bind
      rintro args _ rfl
      exact alike_renamed_call detached title args
  | _ => exact applied

/-! ## Trees -/

section Trees

variable {root : NodeId} {image : NodeId → NodeId}

theorem twins_of_looks {id : NodeId} {node node' : Node} (within : left.Within root id)
    (stored : left.nodes.get? id = some node) (looks : Looks left right rename node node')
    (below : node.isRoot = false) : Twins (left.Names root) rename left right node node' := by
  cases looks with
  | block _ _ is_root _ =>
      rw [below] at is_root
      cases is_root
  | object wraps wraps' found found' =>
      refine ⟨_, _, _, wraps, wraps', found, found', ?_⟩
      rintro definition rfl
      exact ⟨_, ⟨id, node, within, stored, wraps⟩, found⟩

/-- What relates each listed node to its image relates the nodes to their images. -/
theorem forall₂_images {related : Node → Node → Prop} {ids : List NodeId}
    (each : ∀ id ∈ ids, ∃ node node', left.nodes.get? id = some node ∧
      right.nodes.get? (image id) = some node' ∧ related node node') :
    List.Forall₂ related (ids.filterMap left.nodes.get?)
      ((ids.map image).filterMap right.nodes.get?) := by
  induction ids with
  | nil => exact .nil
  | cons id rest ih =>
      rcases each id (by simp) with ⟨node, node', found, found', here⟩
      rw [List.map_cons, List.filterMap_cons_some found, List.filterMap_cons_some found']
      exact .cons here (ih fun other member => each other (by simp [member]))

theorem alike_pictured [Host] (linked : Linked left) (linked' : Linked right)
    (pictured : Pictured left right root image rename) (detached : library.Detached)
    {depth depth' : Nat} {id : NodeId} {node node' : Node} (within : left.Within root id)
    (stored : left.nodes.get? id = some node) (stored' : right.nodes.get? (image id) = some node')
    (shallow : left.listsBelow id < depth) (shallow' : right.listsBelow (image id) < depth') :
    Alike (Matching library (left.Names root) rename) Eq
      (Evaluation.node left .direct depth node)
      (Evaluation.node right .direct depth' node') := by
  induction depth generalizing depth' id node node' with
  | zero => omega
  | succ depth ih =>
      rcases Nat.exists_eq_add_one.mpr (Nat.zero_lt_of_lt shallow') with ⟨depth', rfl⟩
      rcases pictured.nodes within stored with ⟨found, found_eq, looks⟩
      rw [stored'] at found_eq
      cases found_eq
      have ordered := pictured.children within
      have own := linked.keyed stored
      have own' := linked'.keyed stored'
      have children := gives_children linked (own ▸ stored)
      have children' := gives_children linked' (own' ▸ stored')
      rw [own] at children
      rw [own', ordered] at children'
      -- The children are nodes of the tree with images one level further down.
      have below : ∀ child ∈ left.orderedChildren id, ∃ below below',
          left.nodes.get? child = some below ∧ right.nodes.get? (image child) = some below' ∧
            Twins (left.Names root) rename left right below below' ∧
              Alike (Matching library (left.Names root) rename) Eq
                (Evaluation.node left .direct depth below)
                (Evaluation.node right .direct depth' below') := by
        intro child member
        have listed : left.ChildOf id child := mem_orderedChildren.mp member
        have member' : image child ∈ right.orderedChildren (image id) := by
          rw [ordered]
          exact List.mem_map_of_mem member
        rcases linked.owned listed with ⟨below, found, above⟩
        rcases pictured.nodes (within.tail listed) found with ⟨below', found', child_looks⟩
        refine ⟨below, below', found, found', ?_, ?_⟩
        · apply twins_of_looks (within.tail listed) found child_looks
          simp [Node.isRoot, above]
        · exact ih (within.tail listed) found found' (shallow_child linked shallow member)
            (shallow_child linked' shallow' member')
      have twins : List.Forall₂ (Twins (left.Names root) rename left right) _ _ :=
        forall₂_images fun child member => by
          rcases below child member with ⟨below, below', found, found', twins, _⟩
          exact ⟨below, below', found, found', twins⟩
      have each : List.Forall₂ (fun below below' =>
          Alike (Matching library (left.Names root) rename) Eq
          (Evaluation.node left .direct depth below)
          (Evaluation.node right .direct depth' below')) _ _ :=
        forall₂_images fun child member => by
          rcases below child member with ⟨below, below', found, found', _, alike⟩
          exact ⟨below, below', found, found', alike⟩
      cases looks with
      | block bare bare' is_root is_root' =>
          apply Gives.bind_both (gives_no_content bare) (gives_no_content bare')
          simp only [is_root, is_root', if_true]
          apply Gives.bind_both children children'
          apply (alike_renamed_results each).bind
          rintro values _ rfl
          exact .pure rfl
      | object wraps wraps' found found' =>
          apply Gives.bind_both (gives_content wraps found) (gives_content wraps' found')
          apply Gives.bind_both children children'
          apply alike_renamed_statement detached pictured.definitions pictured.injective ?_ twins
            each
          rintro definition rfl
          exact ⟨_, ⟨id, node, within, stored, wraps⟩, found⟩

end Trees

end Evaluation

/-- A tree and its image have the same value or fail in the same way, and the definitions that the
tree names keep the same values. -/
theorem Records.Pictured.interpret_eq [Host] {left right : Records} {node node' : Node}
    {image : NodeId → NodeId} {rename : ObjectId → ObjectId} (tidy : Tidy left)
    (tidy' : Tidy right) (pictured : Pictured left right node.id image rename)
    (sound : Reading.Sound left node) (sound' : Reading.Sound right node')
    (onto : image node.id = node'.id) {context context' : Context}
    (library : context'.library = context.library) (detached : context.library.Detached)
    (agree : ∀ definition, left.Names node.id definition →
      context'.bindings.get? (rename definition) = context.bindings.get? definition) :
    (interpret left node context).1 = (interpret right node' context').1 ∧
      ∀ definition, left.Names node.id definition →
        (interpret right node' context').2.1.bindings.get? (rename definition) =
          (interpret left node context).2.1.bindings.get? definition := by
  rcases interpret_direct tidy sound context with ⟨value, left_context⟩
  rcases interpret_direct tidy' sound' context' with ⟨value', right_context⟩
  have stored' : right.nodes.get? (image node.id) = some node' := by
    rw [onto]
    exact sound'.stored
  have matching : Evaluation.Matching context.library (left.Names node.id) rename
      ⟨Reading.start, context⟩ ⟨Reading.start, context'⟩ := ⟨rfl, library, agree⟩
  rcases Evaluation.alike_pictured tidy.linked tidy'.linked pictured detached .refl sound.stored
    stored' (left.listsBelow_lt_depthBound _) (right.listsBelow_lt_depthBound _) _ _ matching with
    ⟨matching, values⟩
  rw [value, value', left_context, right_context]
  exact ⟨values.eq fun _ _ same => same, matching.values⟩

end RuleTree
