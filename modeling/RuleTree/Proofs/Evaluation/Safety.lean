import RuleTree.Proofs.Evaluation.Simulation

/-!
# Evaluations that fail for their values only

Some errors lie in the values that an evaluation meets: a variable has none, or an operator or a
function cannot take the ones it gets.  The other errors lie in the tree.  They do not occur where
every object below a node has children that suit it (`Evaluation.safe_node`).
-/

namespace RuleTree

/-- The causes that lie in the values which an evaluation meets. -/
inductive EvaluationError.Dynamic : EvaluationError → Prop where
  | unboundVariable (name : String) : Dynamic (.unboundVariable name)
  | typeMismatch (operator operands : String) : Dynamic (.typeMismatch operator operands)
  | divisionByZero : Dynamic .divisionByZero
  | overflow (operator : String) : Dynamic (.overflow operator)
  | functionFailed (title message : String) : Dynamic (.functionFailed title message)

/-! ## Operators -/

/-- A result, or an error that lies in the values. -/
inductive Answer.Fair {α : Type} : Except EvaluationError α → Prop where
  | ok (value : α) : Fair (.ok value)
  | error {cause : EvaluationError} : cause.Dynamic → Fair (.error cause)

section Operators

open Answer EvaluationError.Dynamic

theorem fair_mismatch (op : BinaryOp) (left right : Value) :
    Fair (.error (mismatch op left right) : Except EvaluationError Value) :=
  .error (typeMismatch _ _)

theorem fair_exactOr (symbol : String) (result : Option Int64) : Fair (exactOr symbol result) := by
  cases result with
  | none => exact .error (overflow symbol)
  | some n => exact .ok _

theorem fair_arithmetic (op : BinaryOp) (onInts : Int → Int → Int)
    (onFloats : Float → Float → Float) (left right : Value) :
    Fair (arithmetic op onInts onFloats left right) := by
  unfold arithmetic
  split
  · apply fair_exactOr
  · split
    · exact .ok _
    · apply fair_mismatch

theorem fair_divide (left right : Value) : Fair (divide left right) := by
  unfold divide
  split
  · split
    · exact .error divisionByZero
    · exact .ok _
  · apply fair_mismatch

theorem fair_moduloInts (a b : Int64) : Fair (moduloInts a b) := by
  unfold moduloInts
  split
  · exact .error divisionByZero
  · split
    · exact .error (overflow _)
    · dsimp only
      split
      · exact .ok _
      · exact .ok _

theorem fair_moduloFloats (x y : Float) : Fair (moduloFloats x y) := by
  unfold moduloFloats
  split
  · exact .error divisionByZero
  · dsimp only
    split
    · exact .ok _
    · exact .ok _

theorem fair_modulo (left right : Value) : Fair (modulo left right) := by
  unfold modulo
  split
  · apply fair_moduloInts
  · split
    · apply fair_moduloFloats
    · apply fair_mismatch

theorem fair_power (left right : Value) : Fair (power left right) := by
  unfold power
  dsimp only
  split
  · split
    · apply fair_exactOr
    · split
      · exact .ok _
      · apply fair_mismatch
  · split
    · exact .ok _
    · apply fair_mismatch

theorem fair_comparison (op : BinaryOp) (holds : Ordering → Bool) (left right : Value) :
    Fair (comparison op holds left right) := by
  unfold comparison
  split
  · exact .ok _
  · apply fair_mismatch

theorem BinaryOp.fair_apply (op : BinaryOp) (left right : Value) : Fair (op.apply left right) := by
  cases op with
  | add =>
      simp only [apply]
      split
      · exact .ok _
      · apply fair_arithmetic
  | sub | mul => apply fair_arithmetic
  | div => apply fair_divide
  | mod => apply fair_modulo
  | pow => apply fair_power
  | lt | le | gt | ge => apply fair_comparison
  | eq | ne | and | or => exact .ok _

theorem UnaryOp.fair_apply (op : UnaryOp) (operand : Value) : Fair (op.apply operand) := by
  unfold apply
  split
  · apply fair_exactOr
  · exact .ok _
  · apply fair_exactOr
  · exact .ok _
  · exact .ok _
  · exact .error (typeMismatch _ _)

theorem fair_applyBinary {symbol : String} {op : BinaryOp}
    (known : BinaryOp.ofSymbol? symbol = some op) (left right : Value) :
    Fair (applyBinary symbol left right) := by
  unfold applyBinary
  rw [known]
  apply BinaryOp.fair_apply

theorem fair_applyUnary {symbol : String} {op : UnaryOp}
    (known : UnaryOp.ofSymbol? symbol = some op) (operand : Value) :
    Fair (applyUnary symbol operand) := by
  unfold applyUnary
  rw [known]
  apply UnaryOp.fair_apply

end Operators

namespace Evaluation

open Step Records

/-! ## Steps -/

variable {records : Records} {library : Library}

section Steps

variable {α β : Type}

/-- Wherever the context has the library, the step leaves it there, and it gives a result with a
property, or it fails with an error that lies in the values. -/
def Safe (library : Library) (step : EvalM α) (holds : α → Prop) : Prop :=
  ∀ run, run.context.library = library → (step run).2.context.library = library ∧
    ((∃ value, (step run).1 = .ok value ∧ holds value) ∨
      ∃ cause, (step run).1 = .error (.evaluation cause) ∧ cause.Dynamic)

variable {step : EvalM α} {holds : α → Prop}

theorem Safe.pure {value : α} (given : holds value) : Safe library (pure value) holds :=
  fun _ own => ⟨own, .inl ⟨value, rfl, given⟩⟩

theorem Safe.throw {cause : EvaluationError} (dynamic : cause.Dynamic) :
    Safe library (throw (.evaluation cause)) holds :=
  fun _ own => ⟨own, .inr ⟨cause, rfl, dynamic⟩⟩

theorem Safe.bind {next : α → EvalM β} {holds' : β → Prop} (first : Safe library step holds)
    (second : ∀ value, holds value → Safe library (next value) holds') :
    Safe library (step >>= next) holds' := by
  intro run own
  rcases outcome : step run with ⟨answer, middle⟩
  have start := first run own
  rw [outcome] at start
  rcases start with ⟨kept, ⟨value, rfl, given⟩ | ⟨cause, rfl, dynamic⟩⟩
  · rw [bind_of_ok outcome]
    exact second value given middle kept
  · rw [bind_of_error outcome]
    exact ⟨kept, .inr ⟨cause, rfl, dynamic⟩⟩

theorem Gives.safe {value : α} (gives : Gives step value) : Safe library step (· = value) := by
  intro run own
  rcases gives run with ⟨after, done, same⟩
  rw [done, same]
  exact ⟨own, .inl ⟨value, rfl, rfl⟩⟩

theorem safe_give {answer : Except EvaluationError α} (fair : Answer.Fair answer) :
    Safe library (give answer) fun _ => True := by
  intro run own
  cases fair with
  | ok value => exact ⟨own, .inl ⟨value, rfl, trivial⟩⟩
  | error dynamic => exact ⟨own, .inr ⟨_, rfl, dynamic⟩⟩

end Steps

/-- A variable without a value is reported by its name or its number. -/
theorem safe_lookup (definition : ObjectId) :
    Safe library (lookup records .direct definition) fun _ => True := by
  have now : Safe library bindings fun _ => True :=
    fun run own => ⟨own, .inl ⟨run.context.bindings, rfl, trivial⟩⟩
  refine now.bind fun values _ => ?_
  cases values.get? definition with
  | some value => exact .pure trivial
  | none =>
      have name : Safe library (variableName records .direct definition) fun _ => True := by
        intro run own
        unfold variableName
        split
        · exact ⟨own, .inl ⟨_, rfl, trivial⟩⟩
        · exact ⟨own, .inl ⟨_, rfl, trivial⟩⟩
      exact name.bind fun text _ => .throw (.unboundVariable text)

theorem safe_results {evaluate : Node → EvalM Value} {nodes : List Node}
    (each : ∀ node ∈ nodes, Safe library (evaluate node) fun _ => True) :
    Safe library (results evaluate nodes) fun values => values.length = nodes.length := by
  induction nodes with
  | nil => exact .pure rfl
  | cons node rest ih =>
      refine (each node (by simp)).bind fun value _ => ?_
      refine (ih fun other member => each other (by simp [member])).bind fun values count => ?_
      exact .pure (by simp [count])

/-! ## Trees -/

/-- An object can be evaluated over some nodes as its children. -/
inductive Suits (library : Library) (records : Records) : List Node → Content → Prop where
  | literal {content : Content} {value : Value} :
      content.constant? = some value → Suits library records [] content
  | use (definition : ObjectId) : Suits library records [] (.use definition)
  | definition (children : List Node) (name : String) (source : Option Source) :
      Suits library records children (.definition name source)
  | assignment {target : Node} (expression : Node) {ref : ContentRef} {definition : ObjectId} :
      target.content = some ref → records.objects.get? ref = some (.use definition) →
        Suits library records [target, expression] .assignment
  | binary {symbol : String} {op : BinaryOp} (left right : Node) :
      BinaryOp.ofSymbol? symbol = some op → Suits library records [left, right] (.binary symbol)
  | unary {symbol : String} {op : UnaryOp} (operand : Node) :
      UnaryOp.ofSymbol? symbol = some op → Suits library records [operand] (.unary symbol)
  | call {title : String} {function : FunctionDefinition} {children : List Node} :
      library.get? title = some function → children.length = function.parameters.length →
        Suits library records children (.call title)

/-- A node is a root without an object, or its object can be evaluated over its children. -/
def Evaluable (library : Library) (records : Records) (node : Node) : Prop :=
  node.content = none ∧ node.parent = none ∨
    ∃ ref content, node.content = some ref ∧ records.objects.get? ref = some content ∧
      Suits library records ((records.orderedChildren node.id).filterMap records.nodes.get?) content

section Functions

variable [Host] (steadfast : library.Steadfast)

include steadfast

/-- A function that is called with as many arguments as it declares can only fail by itself. -/
theorem safe_call {title : String} {function : FunctionDefinition} {args : List Value}
    (known : library.get? title = some function)
    (count : args.length = function.parameters.length) :
    Safe library (call title args) fun _ => True := by
  intro run own
  have kept := steadfast.callIn title args own
  have counted : checkArity .call function.parameters.length args.length = .ok () :=
    if_pos count.symm
  unfold call
  rw [own]
  refine ⟨kept, ?_⟩
  unfold Library.callIn
  simp only [known, counted]
  rcases function.body.run args run.context with ⟨message | value, after⟩
  · exact .inr ⟨_, rfl, .functionFailed title message⟩
  · exact .inl ⟨_, rfl, trivial⟩

theorem safe_statement {evaluate : Node → EvalM Value} {children : List Node} {content : Content}
    (suits : Suits library records children content)
    (each : ∀ child ∈ children, Safe library (evaluate child) fun _ => True) :
    Safe library (statement records .direct evaluate content children) fun _ => True := by
  cases suits with
  | literal constant =>
      rw [statement_literal constant]
      exact .pure trivial
  | use definition => exact (safe_give (.ok ())).bind fun _ _ => safe_lookup definition
  | definition _ name source =>
      refine (safe_results each).bind fun values _ => ?_
      have null : (Content.definition name source).evaluate values = .ok Value.null := rfl
      rw [null]
      exact safe_give (.ok _)
  | @assignment target expression _ _ wraps stored =>
      have aimed : Safe library (assignmentTarget records .direct target) fun _ => True := by
        refine (gives_content wraps stored).safe.bind ?_
        rintro content rfl
        exact .pure trivial
      refine aimed.bind fun definition _ => ?_
      refine (each expression (by simp)).bind fun value _ => ?_
      have bound : Safe library (bind definition value) fun _ => True :=
        fun _ own => ⟨own, .inl ⟨(), rfl, trivial⟩⟩
      exact bound.bind fun _ _ => .pure trivial
  | binary left right known =>
      refine (safe_results each).bind fun values count => ?_
      rcases List.length_eq_two.mp count with ⟨a, b, rfl⟩
      exact safe_give (fair_applyBinary known a b)
  | unary operand known =>
      refine (safe_results each).bind fun values count => ?_
      rcases List.length_eq_one_iff.mp count with ⟨a, rfl⟩
      exact safe_give (fair_applyUnary known a)
  | call known count =>
      exact (safe_results each).bind fun args counted =>
        safe_call steadfast known (counted.trans count)

/-- A tree of evaluable nodes fails for its values only. -/
theorem safe_node (linked : Linked records) {depth : Nat} {node : Node}
    (stored : records.nodes.get? node.id = some node)
    (evaluable : ∀ id below, Relation.ReflTransGen records.ChildOf node.id id →
      records.nodes.get? id = some below → Evaluable library records below)
    (shallow : records.listsBelow node.id < depth) :
    Safe library (Evaluation.node records .direct depth node) fun _ => True := by
  -- The depth bounds the lists below the node, so that it does not run out.
  induction depth generalizing node with
  | zero => exact absurd shallow (Nat.not_lt_zero _)
  | succ depth ih =>
      have each : ∀ child ∈ (records.orderedChildren node.id).filterMap records.nodes.get?,
          Safe library (Evaluation.node records .direct depth child) fun _ => True := by
        intro child member
        rcases List.mem_filterMap.mp member with ⟨id, listed, found⟩
        rcases linked.keyed found with rfl
        refine ih found (fun id below path => evaluable id below ?_)
          (shallow_child linked shallow listed)
        exact .head (mem_orderedChildren.mp listed) path
      unfold Evaluation.node
      rcases evaluable node.id node .refl stored with
        ⟨bare, isRoot⟩ | ⟨ref, content, wraps, found, suits⟩
      · refine (gives_no_content bare).safe.bind ?_
        rintro content rfl
        have root : node.isRoot = true := by simp [Node.isRoot, isRoot]
        simp only [root, if_true]
        refine (gives_children linked stored).safe.bind ?_
        rintro children rfl
        exact (safe_results each).bind fun values _ => .pure trivial
      · refine (gives_content wraps found).safe.bind ?_
        rintro content rfl
        refine (gives_children linked stored).safe.bind ?_
        rintro children rfl
        exact safe_statement steadfast suits each

end Functions

end Evaluation

end RuleTree
