import RuleTree.Evaluation.Interpret
import RuleTree.Proofs.Evaluation.Meaning
import RuleTree.Proofs.Reading.Agreement

/-!
# Evaluating a created tree

Evaluating a tree that has the shape of a sketch does what evaluating the sketch does
(`Evaluation.alike_evaluate`).  The bindings of the first evaluation correspond to the environment
of the second: a definition has the value of the name that it was made for.
-/

namespace RuleTree.Evaluation

open Step Records Creation

variable {functions : Option Library} {library : Library} {names : Names} {records : Records}

/-! ## Corresponding states -/

/-- The context has the functions of the library.  Definitions have the values of their names, and
nothing else has a value. -/
structure Corresponds (library : Library) (names : Names) (run : Run) (environment : Environment) :
    Prop where
  library : run.context.library = library
  values : ∀ definition value, run.context.bindings.get? definition = some value ↔
    ∃ name, names.get? name = some definition ∧ environment.get? name = some value

/-- No two names have one definition. -/
def Injective (names : Names) : Prop :=
  ∀ name other definition, names.get? name = some definition →
    names.get? other = some definition → name = other

variable {α β : Type} {run : Run} {environment : Environment}

theorem Corresponds.get?_eq (corresponds : Corresponds library names run environment)
    (injective : Injective names) {name : String} {definition : ObjectId}
    (named : names.get? name = some definition) :
    run.context.bindings.get? definition = environment.get? name := by
  cases found : environment.get? name with
  | some value => exact (corresponds.values definition value).mpr ⟨name, named, found⟩
  | none =>
      cases bound : run.context.bindings.get? definition with
      | none => rfl
      | some value =>
          rcases (corresponds.values definition value).mp bound with
            ⟨other, other_named, other_found⟩
          rcases injective name other definition named other_named with rfl
          rw [found] at other_found
          cases other_found

theorem Corresponds.insert (corresponds : Corresponds library names run environment)
    (injective : Injective names) {name : String} {definition : ObjectId}
    (named : names.get? name = some definition) (value : Value) :
    Corresponds library names
      { run with context.bindings := run.context.bindings.insert definition value }
      (environment.insert name value) := by
  refine ⟨corresponds.library, fun other value' => ?_⟩
  show (run.context.bindings.insert definition value).get? other = some value' ↔ _
  rw [Table.get?_insert]
  by_cases here : definition = other
  · subst here
    rw [if_pos rfl]
    constructor
    · intro same
      exact ⟨name, named, by rw [Table.get?_insert, if_pos rfl, same]⟩
    · rintro ⟨other, other_named, found⟩
      rcases injective name other definition named other_named with rfl
      rw [Table.get?_insert, if_pos rfl] at found
      exact found
  · rw [if_neg here, corresponds.values]
    refine exists_congr fun name' => and_congr_right fun other_named => ?_
    rw [Table.get?_insert, if_neg]
    rintro rfl
    rw [named] at other_named
    exact here (Option.some.inj other_named)

/-- Without bindings no definition has a value. -/
theorem corresponds_empty (reading : Reading) {context : Context}
    (own : context.library = library) (unbound : context.bindings = .empty) :
    Corresponds library names ⟨reading, context⟩ .empty := by
  refine ⟨own, fun definition value => ?_⟩
  rw [unbound]
  constructor
  · rintro ⟨⟩
  · rintro ⟨_, _, ⟨⟩⟩

/-- The step gives a value and leaves the context as it is. -/
def Gives (step : EvalM α) (value : α) : Prop :=
  ∀ run, ∃ after, step run = (.ok value, after) ∧ after.context = run.context

theorem Gives.bind_alike {γ : Type} {results : β → γ → Prop} {step : EvalM α} {value : α}
    (gives : Gives step value) {next : α → EvalM β} {right : ExceptT Error (StateM Environment) γ}
    (rest : Alike (Corresponds library names) results (next value) right) :
    Alike (Corresponds library names) results (step >>= next) right := by
  intro run environment corresponds
  rcases gives run with ⟨after, done, same⟩
  rw [bind_of_ok done]
  refine rest after environment ⟨?_, ?_⟩
  · rw [same, corresponds.library]
  · rw [same]
    exact corresponds.values

/-- Reading the tree leaves the context as it is. -/
theorem gives_read {step : ReadM α} {value : α} (yields : Yields step value) :
    Gives (read step) value := by
  intro run
  rcases yields run.reading with ⟨after, done⟩
  refine ⟨{ run with reading := after }, ?_, rfl⟩
  unfold read
  rw [done]

theorem gives_content {node : Node} {ref : ContentRef} {content : Content}
    (wraps : node.content = some ref) (stored : records.objects.get? ref = some content) :
    Gives (read (Reading.content records .direct node)) (some content) :=
  gives_read fun reading => ⟨_, Reading.content_direct_eq wraps stored reading⟩

/-- A node without an object has no content. -/
theorem gives_no_content {node : Node} (bare : node.content = none) :
    Gives (read (Reading.content records .direct node)) none := by
  simp only [Reading.content, bare]
  exact gives_read (.pure none)

theorem gives_children (linked : Linked records) {node : Node}
    (stored : records.nodes.get? node.id = some node) :
    Gives (read (Reading.children records .direct node))
      ((records.orderedChildren node.id).filterMap records.nodes.get?) :=
  gives_read (Reading.children_direct_eq linked stored)

/-! ## Steps that correspond -/

/-- Every name has a definition that is stored under this name. -/
def Named (names : Names) (records : Records) : Prop :=
  ∀ name definition, names.get? name = some definition →
    ∃ source, records.objects.get? ⟨.definition, definition⟩ = some (.definition name source)

theorem Named.injective (named : Named names records) : Injective names := by
  intro name other definition left right
  rcases named name definition left with ⟨source, stored⟩
  rcases named other definition right with ⟨source', stored'⟩
  rw [stored] at stored'
  cases stored'
  rfl

/-- Of an object that means something, all that a reading needs is stored. -/
theorem Named.supplied (named : Named names records) {data : Fields} {ref : ContentRef}
    (meant : Meant names records data ref) :
    ∃ content, records.objects.get? ref = some content ∧ Snapshot.Defined records content := by
  rcases meant with ⟨content, label, stored, _, means, _⟩
  refine ⟨content, stored, ?_⟩
  rintro definition rfl
  cases means with
  | literal constant => cases constant
  | use found =>
      rcases named _ _ found with ⟨source, stored⟩
      exact ⟨_, stored⟩

theorem alike_named_lookup (named : Named names records) {name : String} {definition : ObjectId}
    (found : names.get? name = some definition) :
    Alike (Corresponds library names) Eq (lookup records .direct definition)
      (Sketch.lookup name) := by
  intro run environment corresponds
  have same := corresponds.get?_eq named.injective found
  have now : bindings run = (.ok run.context.bindings, run) := rfl
  unfold lookup Sketch.lookup
  rw [bind_of_ok now, ← same]
  cases bound : run.context.bindings.get? definition with
  | some value => exact ⟨corresponds, .ok rfl⟩
  | none =>
      rcases named name definition found with ⟨source, stored⟩
      have fetched : Reading.object records .direct ⟨.definition, definition⟩ run.reading =
          (.ok (.definition name source),
            { run.reading with fetches := run.reading.fetches + 1 }) :=
        Reading.fetch_eq_ok.mpr ⟨object_eq_ok.mpr stored, rfl⟩
      have name_eq : variableName records .direct definition run = (.ok name,
          { run with reading := { run.reading with fetches := run.reading.fetches + 1 } }) := by
        unfold variableName
        rw [fetched]
      simp only
      rw [bind_of_ok name_eq]
      exact ⟨⟨corresponds.library, corresponds.values⟩, .error _⟩

theorem alike_assign (named : Named names records) {name : String} {definition : ObjectId}
    (found : names.get? name = some definition) (value : Value) :
    Alike (Corresponds library names) Eq (bind definition value >>= fun _ => pure .null)
      (Sketch.assign name value) := by
  intro run environment corresponds
  have bound : bind definition value run =
      (.ok (), { run with context.bindings := run.context.bindings.insert definition value }) :=
    rfl
  rw [bind_of_ok bound]
  exact ⟨corresponds.insert named.injective found value, .ok rfl⟩

theorem alike_named_give (result : Except EvaluationError Value) :
    Alike (Corresponds library names) Eq (give result) (Sketch.give result) :=
  fun _ _ corresponds => ⟨corresponds, .refl (fun _ => rfl) _⟩

/-! ## Parts of trees -/

/-- The number of levels below a child is smaller than below its parent. -/
theorem shallow_child (linked : Linked records) {parent child : NodeId} {depth : Nat}
    (shallow : records.listsBelow parent < depth + 1)
    (member : child ∈ records.orderedChildren parent) : records.listsBelow child < depth := by
  have fewer := linked.listsBelow_lt (mem_orderedChildren.mp member)
  omega

theorem evaluate_literal {content : Content} {value : Value}
    (constant : content.constant? = some value) : content.evaluate [] = .ok value := by
  unfold Content.evaluate
  rw [constant]
  rfl

theorem arity_literal {content : Content} {value : Value}
    (constant : content.constant? = some value) : content.kind.arity = .fixed 0 := by
  cases content with
  | use | definition | assignment | binary | unary | call => cases constant
  | _ => rfl

/-- The variable of an assignment is read off the first child. -/
theorem gives_assignmentTarget {floor : Int} {target : Sketch} {rest : List Sketch}
    {ids : List NodeId}
    (mirrors : MirrorsAll records floor (Meant names records) (target :: rest) ids)
    (is_use : target.kind? = some .use) :
    ∃ node others name definition, ids.filterMap records.nodes.get? = node :: others ∧
      target.used? = some name ∧ names.get? name = some definition ∧
        Gives (assignmentTarget records .direct node) definition := by
  rcases mirrors with ⟨id, others, rfl, here, _⟩
  rcases target with ⟨data, children⟩
  rcases here with ⟨_, ⟨node, ref, found, wraps, content, label, stored, label_eq, meant, kind_eq⟩,
    _⟩
  have use : content.kind = .use := by
    rw [show Sketch.kind? ⟨data, []⟩ = Sketch.kind? ⟨data, children⟩ from rfl, is_use] at kind_eq
    exact (Option.some.inj kind_eq).symm
  cases meant with
  | @literal _ value constant =>
      cases content with
      | use definition => cases constant
      | _ => cases use
  | @use name definition known =>
      refine ⟨node, _, name, definition, List.filterMap_cons_some found, ?_, known, ?_⟩
      · unfold Sketch.used?
        rw [label_eq]
      · intro run
        rcases gives_content wraps stored run with ⟨after, done, same⟩
        refine ⟨after, ?_, same⟩
        unfold assignmentTarget
        rw [bind_of_ok done]
        rfl
  | _ => cases use

/-! ## Trees -/

section Trees

variable [Host]

/-- An evaluation with the library of the context starts at its node. -/
theorem alike_whole {results : Value → β → Prop} {root : Node}
    {right : ExceptT Error (StateM Environment) β}
    (alike : Alike (Corresponds library names) results
      (Evaluation.node records .direct records.depthBound root) right) :
    Alike (Corresponds library names) results (evaluate records .direct library root) right := by
  intro run environment corresponds
  rw [evaluate_own corresponds.library]
  exact alike run environment corresponds

theorem alike_detached_call (detached : library.Detached) (title : String) (args : List Value) :
    Alike (Corresponds library names) Eq (call title args)
      (Sketch.give (library.apply title args)) := by
  intro run environment corresponds
  have called : call title args run = ((library.apply title args).mapError .evaluation, run) := by
    unfold call
    rw [corresponds.library, detached.call_eq]
  rw [called]
  exact ⟨corresponds, .refl (fun _ => rfl) _⟩

theorem alike_named_results {evaluate : Node → EvalM Value} {trees : List Sketch}
    {nodes : List Node}
    (each : List.Forall₂ (fun tree node => Alike (Corresponds library names) Eq (evaluate node)
      (tree.evaluate library)) trees nodes) :
    Alike (Corresponds library names) Eq (results evaluate nodes)
      (Sketch.evaluateAll library trees) := by
  induction each with
  | nil => exact .pure rfl
  | cons here _ ih =>
      refine here.bind fun value value' agree => ?_
      subst agree
      refine ih.bind fun values values' agree => ?_
      subst agree
      exact .pure rfl

/-- An operator or a function does the same to the results of its children either way. -/
theorem alike_applied {evaluate : Node → EvalM Value} {trees : List Sketch} {nodes : List Node}
    (each : List.Forall₂ (fun tree node => Alike (Corresponds library names) Eq (evaluate node)
      (tree.evaluate library)) trees nodes) {content : Content} {label : Label}
    (same : ∀ args, content.evaluate args = Sketch.apply library label args) :
    Alike (Corresponds library names) Eq
      (results evaluate nodes >>= fun args => give (content.evaluate args))
      (Sketch.evaluateAll library trees >>= fun args =>
        Sketch.give (Sketch.apply library label args)) := by
  refine (alike_named_results each).bind fun args args' agree => ?_
  subst agree
  rw [same]
  exact alike_named_give _

theorem evaluate_binary (library : Library) (symbol : String) (args : List Value) :
    (Content.binary symbol).evaluate args = Sketch.apply library (.binary symbol) args := by
  match args with
  | [] => rfl
  | [_] => rfl
  | [_, _] => rfl
  | _ :: _ :: _ :: _ => rfl

theorem evaluate_unary (library : Library) (symbol : String) (args : List Value) :
    (Content.unary symbol).evaluate args = Sketch.apply library (.unary symbol) args := by
  match args with
  | [] => rfl
  | [_] => rfl
  | _ :: _ :: _ => rfl

/-- A constant is evaluated by its own rule for constants. -/
theorem statement_literal {content : Content} {value : Value}
    (constant : content.constant? = some value) (evaluate : Node → EvalM Value) :
    statement records .direct evaluate content [] = pure value := by
  have evaluated := evaluate_literal constant
  cases content with
  | use | definition | assignment | binary | unary | call => cases constant
  | _ =>
      cases constant
      rfl

mutual

theorem alike_evaluate {floor : Int} {isRoot : Bool} (linked : Linked records)
    (named : Named names records) (detached : library.Detached) :
    ∀ {tree : Sketch} {id : NodeId} {depth : Nat} {node : Node},
      Mirrors records floor (Meant names records) tree id →
        check functions isRoot (tree.mapData (bindData names)) = .ok () →
          records.nodes.get? id = some node → records.listsBelow id < depth →
            Alike (Corresponds library names) Eq
              (Evaluation.node records .direct depth node) (tree.evaluate library)
  | ⟨data, children⟩, id, depth, node, mirrors, checked, found, shallow => by
      rcases mirrors with ⟨_, ⟨node', ref, found', wraps, fit⟩, below⟩
      rw [found] at found'
      rcases Option.some.inj found' with rfl
      rcases linked.keyed found with rfl
      rcases fit with ⟨content, label, stored, label_eq, meant, kind_eq⟩
      rcases Nat.exists_eq_add_one.mpr (Nat.zero_lt_of_lt shallow) with ⟨depth, rfl⟩
      rcases check_eq_ok checked with ⟨checked_node, checked_below⟩
      have kind_bound : Sketch.kind? ⟨bindData names data, Sketch.mapDataAll (bindData names)
          children⟩ = some content.kind := by rw [kind?_bindData names data _ [], kind_eq]
      rcases checkNode_eq_ok checked_node kind_bound with ⟨counted, target_checked⟩
      simp only [length_mapDataAll] at counted
      have each := forall₂_evaluate linked named detached below checked_below
        fun child member => shallow_child linked shallow member
      refine (gives_content wraps stored).bind_alike ?_
      refine (gives_children linked found).bind_alike ?_
      cases meant with
      | @literal _ value constant =>
          rcases List.eq_nil_of_length_eq_zero
            (counted 0 (expectedChildren_fixed (arity_literal constant) _)) with rfl
          rw [List.forall₂_nil_left_iff.mp each]
          unfold Sketch.evaluate
          rw [label_eq, statement_literal constant]
          exact .pure rfl
      | use known =>
          rcases List.eq_nil_of_length_eq_zero (counted 0 (expectedChildren_fixed rfl _)) with rfl
          rw [List.forall₂_nil_left_iff.mp each]
          unfold Sketch.evaluate
          rw [label_eq]
          exact alike_named_lookup named known
      | assignment =>
          rcases List.length_eq_two.mp (counted 2 (expectedChildren_fixed rfl _)) with
            ⟨target, expression, rfl⟩
          have is_use : target.kind? = some .use := by
            rcases target with ⟨target_data, target_children⟩
            have checked_use := target_checked rfl
            exact (kind?_bindData names target_data _ target_children).symm.trans checked_use
          rcases gives_assignmentTarget below is_use with
            ⟨target_node, others, name, definition, nodes_eq, name_eq, known, gives⟩
          rw [nodes_eq] at each ⊢
          rcases each with _ | ⟨_, each⟩
          rcases each with _ | ⟨expression_alike, each⟩
          cases each
          unfold Sketch.evaluate
          simp only [label_eq, name_eq]
          refine gives.bind_alike ?_
          refine expression_alike.bind fun value value' agree => ?_
          subst agree
          exact alike_assign named known value
      | binary symbol =>
          unfold Sketch.evaluate
          rw [label_eq]
          exact alike_applied each (evaluate_binary library symbol)
      | unary symbol =>
          unfold Sketch.evaluate
          rw [label_eq]
          exact alike_applied each (evaluate_unary library symbol)
      | call title =>
          unfold Sketch.evaluate
          rw [label_eq]
          refine (alike_named_results each).bind fun args args' agree => ?_
          subst agree
          exact alike_detached_call detached title args

theorem forall₂_evaluate {floor : Int} (linked : Linked records)
    (named : Named names records) (detached : library.Detached) :
    ∀ {trees : List Sketch} {ids : List NodeId} {depth : Nat},
      MirrorsAll records floor (Meant names records) trees ids →
        checkAll functions (Sketch.mapDataAll (bindData names) trees) = .ok () →
          (∀ id ∈ ids, records.listsBelow id < depth) →
            List.Forall₂ (fun tree node => Alike (Corresponds library names) Eq
              (Evaluation.node records .direct depth node) (tree.evaluate library))
              trees (ids.filterMap records.nodes.get?)
  | [], ids, depth, mirrors, _, _ => by
      rcases mirrors with rfl
      exact .nil
  | tree :: rest, ids, depth, mirrors, checked, shallow => by
      rcases mirrors with ⟨id, others, rfl, here, mirrors⟩
      rcases Answer.bind_eq_ok.mp checked with ⟨_, checked_here, checked_rest⟩
      rcases here.stored with ⟨node, found⟩
      rw [List.filterMap_cons_some found]
      exact .cons
        (alike_evaluate linked named detached here checked_here found (shallow id (by simp)))
        (forall₂_evaluate linked named detached mirrors checked_rest
          fun other member => shallow other (by simp [member]))

end

end Trees

end RuleTree.Evaluation
