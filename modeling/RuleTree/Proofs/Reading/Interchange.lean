import RuleTree.Block.Writer
import RuleTree.Proofs.Function.Contexts
import RuleTree.Proofs.Outcome

/-!
# Interchangeable ways to read

Evaluating a tree and writing it as a document ask for nodes and objects in an order that depends on
nothing but the answers.  So it makes no difference whether a tree is read in one way or another, or
from one store or another, as long as both give the same answers about the tree: the results and
errors are the same, and so is the context that an evaluation leaves
(`Reading.Interchangeable.alike_node`, `Reading.Interchangeable.alike_build`).
-/

namespace RuleTree

open Step

/-- Two ways to read that give the same answers about the nodes of a tree and about the definitions
that its variables name.  The depths to which the two still go down need not be the same, but they
end at the same nodes. -/
structure Reading.Interchangeable (left : Records) (access : Access) (right : Records)
    (access' : Access) (states : Reading → Reading → Prop) (inside : Nat → Nat → Node → Prop)
    (named : ObjectId → Prop) : Prop where
  ends : ∀ {depth depth' node}, inside depth depth' node → (depth = 0 ↔ depth' = 0)
  content : ∀ {depth depth' node}, inside depth depth' node → Alike states
    (fun content content' => content = content' ∧
      ∀ definition, content = some (.use definition) → named definition)
    (Reading.content left access node) (Reading.content right access' node)
  children : ∀ {depth depth' node}, inside (depth + 1) (depth' + 1) node → Alike states
    (fun nodes nodes' => nodes = nodes' ∧ ∀ child ∈ nodes, inside depth depth' child)
    (Reading.children left access node) (Reading.children right access' node)
  definition : ∀ {definition}, named definition → Alike states Eq
    (Reading.object left access ⟨.definition, definition⟩)
    (Reading.object right access' ⟨.definition, definition⟩)

variable {left right : Records} {access access' : Access} {states : Reading → Reading → Prop}
  {inside : Nat → Nat → Node → Prop} {named : ObjectId → Prop} {depth depth' : Nat}

/-! ## Evaluation -/

namespace Evaluation

/-- The readings of two runs are related, and so are their contexts. -/
def Together (states : Reading → Reading → Prop) (ties : Context → Context → Prop)
    (run run' : Run) : Prop :=
  states run.reading run'.reading ∧ ties run.context run'.context

section Steps

variable {α β : Type} {ties : Context → Context → Prop} {evaluate evaluate' : Node → EvalM Value}

theorem alike_read {results : α → β → Prop} {step : ReadM α} {step' : ReadM β}
    (alike : Alike states results step step') :
    Alike (Together states ties) results (read step) (read step') := by
  rintro run run' ⟨related, same⟩
  rcases alike run.reading run'.reading related with ⟨after, answers⟩
  exact ⟨⟨after, same⟩, answers⟩

theorem alike_give (result : Except EvaluationError α) :
    Alike (Together states ties) Eq (give result) (give result) :=
  fun _ _ before => ⟨before, .refl (fun _ => rfl) _⟩

section Contexts

variable [Host] (inseparable : Inseparable ties)

include inseparable

theorem alike_bindings : Alike (Together states ties) Eq bindings bindings :=
  fun _ _ before => ⟨before, .ok (inseparable.bindings before.2)⟩

theorem alike_bind (definition : ObjectId) (value : Value) :
    Alike (Together states ties) Eq (bind definition value) (bind definition value) := by
  rintro run run' ⟨related, tied⟩
  refine ⟨⟨related, ?_⟩, .ok rfl⟩
  simp only [bind, inseparable.bindings tied]
  exact inseparable.bind tied _

theorem alike_call (title : String) (args : List Value) :
    Alike (Together states ties) Eq (call title args) (call title args) := by
  rintro run run' ⟨related, tied⟩
  rcases inseparable.call tied title args with ⟨results, tied⟩
  refine ⟨⟨related, tied⟩, ?_⟩
  simp only [call, results]
  exact .refl (fun _ => rfl) _

end Contexts

theorem alike_results {nodes : List Node}
    (each : ∀ node ∈ nodes, Alike (Together states ties) Eq (evaluate node) (evaluate' node)) :
    Alike (Together states ties) Eq (results evaluate nodes) (results evaluate' nodes) := by
  induction nodes with
  | nil => exact .pure rfl
  | cons node rest ih =>
      refine (each node (by simp)).bind fun value value' agree => ?_
      subst agree
      refine (ih fun other member => each other (by simp [member])).bind
        fun values values' agree => ?_
      subst agree
      exact .pure rfl

end Steps

section Trees

variable {ties : Context → Context → Prop} {evaluate evaluate' : Node → EvalM Value}
  (same : Reading.Interchangeable left access right access' states inside named)

include same

theorem alike_variableName {definition : ObjectId} (names : named definition) :
    Alike (Together states ties) Eq (variableName left access definition)
      (variableName right access' definition) := by
  rintro run run' ⟨related, bound⟩
  rcases same.definition names run.reading run'.reading related with ⟨after, answers⟩
  unfold variableName
  rcases first : Reading.object left access ⟨.definition, definition⟩ run.reading with
    ⟨answer, reading⟩
  rcases second : Reading.object right access' ⟨.definition, definition⟩ run'.reading with
    ⟨answer', reading'⟩
  rw [first, second] at after answers
  cases answers with
  | error cause => exact ⟨⟨after, bound⟩, .ok rfl⟩
  | ok agree =>
      subst agree
      rename_i content
      cases content <;> exact ⟨⟨after, bound⟩, .ok rfl⟩

theorem alike_lookup [Host] (inseparable : Inseparable ties) {definition : ObjectId}
    (names : named definition) :
    Alike (Together states ties) Eq (lookup left access definition)
      (lookup right access' definition) := by
  refine (alike_bindings inseparable).bind fun bound bound' agree => ?_
  subst agree
  cases bound.get? definition with
  | some value => exact .pure rfl
  | none =>
      refine (alike_variableName same names).bind fun name name' agree => ?_
      subst agree
      exact .throw _

theorem alike_assignmentTarget {target : Node} (within : inside depth depth' target) :
    Alike (Together states ties) Eq (assignmentTarget left access target)
      (assignmentTarget right access' target) := by
  refine (alike_read (same.content within)).bind ?_
  rintro content content' ⟨rfl, _⟩
  cases content with
  | none => exact .throw _
  | some content =>
      cases content with
      | use definition => exact .pure rfl
      | _ => exact .throw _

theorem alike_statement [Host] (inseparable : Inseparable ties) {children : List Node}
    (within : ∀ child ∈ children, inside depth depth' child)
    (each : ∀ child ∈ children, Alike (Together states ties) Eq (evaluate child) (evaluate' child))
    {content : Content} (names : ∀ definition, content = .use definition → named definition) :
    Alike (Together states ties) Eq (statement left access evaluate content children)
      (statement right access' evaluate' content children) := by
  have applied (content : Content) : Alike (Together states ties) Eq
      (results evaluate children >>= fun args => give (content.evaluate args))
      (results evaluate' children >>= fun args => give (content.evaluate args)) := by
    refine (alike_results each).bind fun args args' agree => ?_
    subst agree
    exact alike_give _
  cases content with
  | assignment =>
      unfold statement
      match children, within, each with
      | [target, expression], within, each =>
          refine (alike_assignmentTarget same (within target (by simp))).bind
            fun definition definition' agree => ?_
          subst agree
          refine (each expression (by simp)).bind fun value value' agree => ?_
          subst agree
          exact (alike_bind inseparable definition value).bind fun _ _ _ => .pure rfl
      | [], _, _ => exact .throw _
      | [_], _, _ => exact .throw _
      | _ :: _ :: _ :: _, _, _ => exact .throw _
  | use definition =>
      exact (alike_give _).bind fun _ _ _ =>
        alike_lookup same inseparable (names definition rfl)
  | call title =>
      refine (alike_results each).bind fun args args' agree => ?_
      subst agree
      exact alike_call inseparable title args
  | _ => exact applied _

end Trees

end Evaluation

/-! ## Documents -/

namespace Block

variable {write write' : Node → ReadM Element}

theorem alike_chainElement {nodes : List Node}
    (each : ∀ node ∈ nodes, Alike states Eq (write node) (write' node)) :
    Alike states Eq (chainElement write nodes) (chainElement write' nodes) := by
  induction nodes with
  | nil => exact .pure rfl
  | cons node rest ih =>
      refine (each node (by simp)).bind fun block block' agree => ?_
      subst agree
      refine (ih fun other member => each other (by simp [member])).bind
        fun others others' agree => ?_
      subst agree
      exact .pure rfl

section Trees

variable (same : Reading.Interchangeable left access right access' states inside named)

include same

theorem alike_visibleChildren {node : Node} (within : inside (depth + 1) (depth' + 1) node) :
    Alike states (fun nodes nodes' => nodes = nodes' ∧ ∀ child ∈ nodes, inside depth depth' child)
      (visibleChildren left access node) (visibleChildren right access' node) := by
  refine (same.children within).bind ?_
  rintro children children' ⟨rfl, below⟩
  exact .pure ⟨rfl, fun child member => below child (List.mem_filter.mp member).1⟩

theorem alike_variableName {definition : ObjectId} (names : named definition) :
    Alike states Eq (variableName left access definition)
      (variableName right access' definition) := by
  refine (same.definition names).bind fun content content' agree => ?_
  subst agree
  cases content with
  | definition name source => exact .pure rfl
  | _ => exact .throw _

theorem alike_slotElements {slots : List (Node × String)}
    (within : ∀ slot ∈ slots, inside depth depth' slot.1)
    (each : ∀ slot ∈ slots, Alike states Eq (write slot.1) (write' slot.1)) :
    Alike states Eq (slotElements left access write slots)
      (slotElements right access' write' slots) := by
  induction slots with
  | nil => exact .pure rfl
  | cons slot rest ih =>
      refine (same.content (within slot (by simp))).bind ?_
      rintro content content' ⟨rfl, _⟩
      refine (each slot (by simp)).bind fun block block' agree => ?_
      subst agree
      refine (ih (fun other member => within other (by simp [member]))
        fun other member => each other (by simp [member])).bind fun others others' agree => ?_
      subst agree
      exact .pure rfl

theorem alike_fillSlots {node : Node} {content : Content} {children : List Node}
    {slots : List String} (within : ∀ child ∈ children, inside depth depth' child)
    (each : ∀ child ∈ children, Alike states Eq (write child) (write' child)) :
    Alike states Eq (fillSlots left access write node content children slots)
      (fillSlots right access' write' node content children slots) := by
  unfold fillSlots
  split
  · exact .throw _
  · split
    · exact .throw _
    · exact alike_slotElements same (fun slot member => within _ (List.of_mem_zip member).1)
        fun slot member => each _ (List.of_mem_zip member).1

theorem alike_targetName (node : Node) {target : Node} (within : inside depth depth' target) :
    Alike states Eq (targetName left access node target)
      (targetName right access' node target) := by
  refine (same.content within).bind ?_
  rintro content content' ⟨rfl, names⟩
  cases content with
  | none => exact .throw _
  | some content =>
      cases content with
      | use definition => exact alike_variableName same (names definition rfl)
      | _ => exact .throw _

theorem alike_partElements {node : Node} {block : OperatorBlock} {children : List Node}
    (within : ∀ child ∈ children, inside depth depth' child)
    (each : ∀ child ∈ children, Alike states Eq (write child) (write' child))
    {content : Content} (names : ∀ definition, content = .use definition → named definition) :
    Alike states Eq (partElements left access write node block children content)
      (partElements right access' write' node block children content) := by
  cases content with
  | float x =>
      simp only [partElements]
      split
      · exact .pure rfl
      · exact .throw _
  | use definition =>
      refine (alike_variableName same (names definition rfl)).bind fun name name' agree => ?_
      subst agree
      exact .pure rfl
  | definition name source => exact .throw _
  | assignment =>
      cases children with
      | nil => exact .throw _
      | cons target others =>
          refine (alike_targetName same node (within target (by simp))).bind
            fun name name' agree => ?_
          subst agree
          refine (alike_fillSlots same (fun child member => within child (by simp [member]))
            fun child member => each child (by simp [member])).bind fun slots slots' agree => ?_
          subst agree
          exact .pure rfl
  | binary symbol =>
      refine (alike_fillSlots same within each).bind fun slots slots' agree => ?_
      subst agree
      exact .pure rfl
  | unary symbol =>
      refine (alike_fillSlots same within each).bind fun slots slots' agree => ?_
      subst agree
      exact .pure rfl
  | call title =>
      refine (alike_fillSlots same within each).bind fun slots slots' agree => ?_
      subst agree
      exact .pure rfl
  | _ => exact .pure rfl

theorem alike_blockElement (ids : Bool) {node : Node} (within : inside depth depth' node) :
    Alike states Eq (blockElement left access ids depth node)
      (blockElement right access' ids depth' node) := by
  induction depth generalizing depth' node with
  | zero =>
      rcases (same.ends within).mp rfl with rfl
      exact .throw _
  | succ depth ih =>
      cases depth' with
      | zero => cases (same.ends within).mpr rfl
      | succ depth' =>
          refine (same.content within).bind ?_
          rintro content content' ⟨rfl, names⟩
          cases content with
          | none => exact .throw _
          | some content =>
              refine (alike_visibleChildren same within).bind ?_
              rintro children children' ⟨rfl, below⟩
              cases ofContent content with
              | error cause => exact .throw _
              | ok block =>
                  refine (alike_partElements same below
                    (fun child member => ih (below child member))
                    fun definition same => names definition (congrArg some same)).bind
                      fun parts parts' agree => ?_
                  subst agree
                  exact .pure rfl

end Trees

end Block

/-! ## Whole trees -/

namespace Reading.Interchangeable

open Evaluation Block

variable (same : Interchangeable left access right access' states inside named)

include same

/-- Interchangeable ways to read a tree give it the same value in contexts that cannot be told
apart, and they leave such contexts. -/
theorem alike_node [Host] {ties : Context → Context → Prop} (inseparable : Inseparable ties)
    {node : Node} (within : inside depth depth' node) :
    Alike (Together states ties) Eq (Evaluation.node left access depth node)
      (Evaluation.node right access' depth' node) := by
  induction depth generalizing depth' node with
  | zero =>
      rcases (same.ends within).mp rfl with rfl
      exact .throw _
  | succ depth ih =>
      cases depth' with
      | zero => cases (same.ends within).mpr rfl
      | succ depth' =>
          refine (alike_read (same.content within)).bind ?_
          rintro content content' ⟨rfl, names⟩
          cases content with
          | none =>
              simp only
              split
              · refine (alike_read (same.children within)).bind ?_
                rintro children children' ⟨rfl, below⟩
                refine (alike_results fun child member => ih (below child member)).bind
                  fun values values' agree => ?_
                subst agree
                exact .pure rfl
              · exact .throw _
          | some content =>
              refine (alike_read (same.children within)).bind ?_
              rintro children children' ⟨rfl, below⟩
              exact alike_statement same inseparable below
                (fun child member => ih (below child member))
                fun definition same => names definition (congrArg some same)

/-- Interchangeable ways to read a tree give it the same document. -/
theorem alike_build (ids : Bool) {node : Node}
    (within : inside left.depthBound right.depthBound node)
    (above : inside (left.depthBound + 1) (right.depthBound + 1) node) :
    Alike states Eq (build left access ids node) (build right access' ids node) := by
  have documents : Alike states Eq (document left access ids node)
      (document right access' ids node) := by
    unfold document
    by_cases root : node.isBlock = true
    · simp only [root, if_true]
      refine (alike_visibleChildren same above).bind ?_
      rintro children children' ⟨rfl, below⟩
      refine (alike_chainElement fun child member =>
        alike_blockElement same ids (below child member)).bind fun blocks blocks' agree => ?_
      subst agree
      exact .pure rfl
    · simp only [root]
      refine (alike_blockElement same ids within).bind fun block block' agree => ?_
      subst agree
      exact .pure rfl
  refine documents.bind fun root root' agree => ?_
  subst agree
  exact .pure rfl

end Reading.Interchangeable

end RuleTree
