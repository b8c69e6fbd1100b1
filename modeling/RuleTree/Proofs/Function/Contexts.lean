import Mathlib.Logic.Relation
import RuleTree.Evaluation.Interpret

/-!
# What functions do with a context

A function that is given the context of an evaluation may let its result depend on all of it, and it
may leave any other context behind.  How far that goes is a matter of the library: functions may be
`Detached` from the context, they may be `Steadfast` and leave the library alone, or they may be
`Heedless` of how trees are read.  Contexts that no function of theirs tells apart are
`Inseparable` to an evaluation.
-/

namespace RuleTree

variable [Host]

/-- What a call says about the result of a function. -/
def FunctionDefinition.report (function : FunctionDefinition) (title : String) :
    Except String Value → Except EvaluationError Value
  | .error message => .error (.functionFailed title message)
  | .ok value => .ok (if function.returnsValue then value else .null)

namespace Library

variable {library : Library}

/-- Whatever the context is, a call fails before a function is run, or it reports what a function of
the library does in the context. -/
theorem callIn_cases (library : Library) (title : String) (args : List Value) :
    (∃ cause, ∀ context, library.callIn title args context = (.error cause, context)) ∨
      ∃ function, library.get? title = some function ∧ ∀ context,
        library.callIn title args context =
          (function.report title (function.body.run args context).1,
            (function.body.run args context).2) := by
  unfold callIn
  cases found : library.get? title with
  | none => exact .inl ⟨_, fun _ => rfl⟩
  | some function =>
      cases counted : checkArity .call function.parameters.length args.length with
      | error cause => exact .inl ⟨cause, fun _ => by simp only [counted]⟩
      | ok _ =>
          refine .inr ⟨function, rfl, fun context => ?_⟩
          rcases outcome : function.body.run args context with ⟨message | value, after⟩ <;>
            simp only [counted, outcome, FunctionDefinition.report]

/-! ## Functions that neither see nor change the context -/

/-- The library has functions that neither see nor change the context. -/
def Detached (library : Library) : Prop :=
  ∀ title function, library.get? title = some function →
    ∃ run : List Value → Except String Value, ∀ args context,
      function.body.run args context = (run args, context)

theorem Detached.register (detached : library.Detached) {function : FunctionDefinition}
    (blind : ∃ run, function.body = .pure run) : (library.register function).Detached := by
  intro title other found
  unfold Library.register at found
  rcases Table.get?_insert_cases found with ⟨_, rfl⟩ | ⟨_, found⟩
  · rcases blind with ⟨run, body⟩
    exact ⟨run, fun args context => by rw [body]; rfl⟩
  · exact detached title other found

theorem detached_ofFunctions {functions : List FunctionDefinition}
    (blind : ∀ function ∈ functions, ∃ run, function.body = .pure run) :
    (ofFunctions functions).Detached := by
  have grows (library : Library) (detached : library.Detached) :
      (functions.foldl Library.register library).Detached := by
    induction functions generalizing library with
    | nil => exact detached
    | cons function rest ih =>
        exact ih (fun other member => blind other (by simp [member])) _
          (detached.register (blind function (by simp)))
  refine grows .empty ?_
  rintro title function ⟨⟩

/-- The result of a call of a function that sees no context. -/
def apply (library : Library) (title : String) (args : List Value) :
    Except EvaluationError Value :=
  (library.call title args .empty).1

theorem Detached.call_eq (detached : library.Detached) (title : String) (args : List Value)
    (context : Context) :
    library.callIn title args context = (library.apply title args, context) := by
  unfold apply call
  rcases library.callIn_cases title args with ⟨cause, called⟩ | ⟨function, found, called⟩
  · simp only [called]
  · rcases detached title function found with ⟨run, runs⟩
    simp only [called, runs]

/-! ## Functions that leave the library alone -/

/-- The functions may read and change the context, but they do not replace its library. -/
def Steadfast (library : Library) : Prop :=
  ∀ title function, library.get? title = some function → ∀ args context,
    context.library = library → (function.body.run args context).2.library = library

theorem Steadfast.callIn (steadfast : library.Steadfast) (title : String) (args : List Value)
    {context : Context} (own : context.library = library) :
    (library.callIn title args context).2.library = library := by
  rcases library.callIn_cases title args with ⟨cause, called⟩ | ⟨function, found, called⟩
  · rw [called]
    exact own
  · rw [called]
    exact steadfast title function found args context own

theorem Detached.steadfast (detached : library.Detached) : library.Steadfast := by
  intro title function found args context own
  rcases detached title function found with ⟨run, runs⟩
  rw [runs]
  exact own

/-! ## Functions to which it is nothing how trees are read -/

/-- A function has the same result and leaves the same bindings and the same library, whichever way
the context says that trees are read. -/
def IgnoresCache (library : Library) : Prop :=
  ∀ title function, library.get? title = some function → ∀ args bindings cache cache',
    (function.body.run args ⟨bindings, cache, library⟩).1 =
        (function.body.run args ⟨bindings, cache', library⟩).1 ∧
      (function.body.run args ⟨bindings, cache, library⟩).2.bindings =
        (function.body.run args ⟨bindings, cache', library⟩).2.bindings ∧
      (function.body.run args ⟨bindings, cache, library⟩).2.library =
        (function.body.run args ⟨bindings, cache', library⟩).2.library

/-- Some function of the library, called in a context that has it, puts another one in its place. -/
def Leaves (library next : Library) : Prop :=
  ∃ title function args context, library.get? title = some function ∧ context.library = library ∧
    (function.body.run args context).2.library = next

/-- How trees are read is nothing to the functions of the library, nor to the functions of a library
that these put in its place. -/
def Heedless (library : Library) : Prop :=
  ∀ next, Relation.ReflTransGen Leaves library next → next.IgnoresCache

theorem Detached.heedless (detached : library.Detached) : library.Heedless := by
  intro next path
  -- No function leaves another library.
  have same : library = next := by
    induction path with
    | refl => rfl
    | tail _ leaves ih =>
        rcases leaves with ⟨title, function, args, context, found, own, rfl⟩
        subst ih
        exact (detached.steadfast title function found args context own).symm
  subst same
  intro title function found args bindings cache cache'
  rcases detached title function found with ⟨run, runs⟩
  simp only [runs, and_self]

end Library

/-- No built-in function sees the context. -/
theorem Builtin.detached_library : Builtin.library.Detached := by
  apply Library.detached_ofFunctions
  intro function member
  simp only [functions, List.mem_cons, List.not_mem_nil, or_false] at member
  rcases member with rfl | rfl | rfl | rfl | rfl | rfl | rfl | rfl | rfl <;> exact ⟨_, rfl⟩

/-- The functions of the context itself are those that an evaluation in it calls first. -/
theorem evaluate_own {records : Records} {access : Access} {library : Library} {node : Node}
    {run : Run} (own : run.context.library = library) :
    evaluate records access library node run =
      Evaluation.node records access records.depthBound node run := by
  subst own
  rfl

/-! ## Contexts that an evaluation cannot tell apart -/

/-- Contexts in the relation have the same bindings, and they stay in it whatever an evaluation does
in both. -/
structure Inseparable (ties : Context → Context → Prop) : Prop where
  bindings : ∀ {context context'}, ties context context' → context.bindings = context'.bindings
  bind : ∀ {context context'}, ties context context' → ∀ bindings,
    ties { context with bindings } { context' with bindings }
  call : ∀ {context context'}, ties context context' → ∀ title args,
    (context.library.callIn title args context).1 =
        (context'.library.callIn title args context').1 ∧
      ties (context.library.callIn title args context).2
        (context'.library.callIn title args context').2

theorem inseparable_eq : Inseparable Eq where
  bindings same := congrArg Context.bindings same
  bind same _ := same ▸ rfl
  call same _ _ := same ▸ ⟨rfl, rfl⟩

/-- The contexts are the same but for the way in which trees are read, and this is nothing to their
functions. -/
structure Context.SameButCache (context context' : Context) : Prop where
  bindings : context.bindings = context'.bindings
  library : context.library = context'.library
  heedless : context.library.Heedless

theorem inseparable_sameButCache : Inseparable Context.SameButCache where
  bindings same := same.bindings
  bind same _ := ⟨rfl, same.library, same.heedless⟩
  call := by
    rintro ⟨bindings, cache, library⟩ ⟨_, cache', _⟩ ⟨rfl, rfl, heedless⟩ title args
    simp only
    rcases library.callIn_cases title args with ⟨cause, called⟩ | ⟨function, found, called⟩
    · simp only [called, true_and]
      exact ⟨rfl, rfl, heedless⟩
    · rcases heedless library .refl title function found args bindings cache cache' with
        ⟨result, bindings_eq, library_eq⟩
      simp only [called]
      refine ⟨congrArg _ result, bindings_eq, library_eq, fun next path => heedless next ?_⟩
      exact .head ⟨title, function, args, _, found, rfl, rfl⟩ path

end RuleTree
