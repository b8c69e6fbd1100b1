import RuleTree.Error

/-!
# Outcomes of steps

Reading, editing and evaluating are steps on a state that may fail.  A step that gives a result is
taken apart here: a sequence into its parts, and an answer into the answers that it was made from.
`Step.Alike` compares two steps: from related states they give related results or fail with the same
error, and in either case they leave related states.
-/

namespace RuleTree.Answer

variable {ε ε' α β : Type}

theorem bind_eq_ok {answer : Except ε α} {next : α → Except ε β} {result : β} :
    (answer >>= next) = .ok result ↔ ∃ value, answer = .ok value ∧ next value = .ok result := by
  cases answer with
  | error cause =>
      constructor
      · intro impossible
        cases impossible
      · rintro ⟨value, impossible, _⟩
        cases impossible
  | ok value =>
      constructor
      · intro rest
        exact ⟨value, rfl, rest⟩
      · rintro ⟨value', same, rest⟩
        rcases Except.ok.inj same with rfl
        exact rest

@[simp]
theorem ok_bind {value : α} {next : α → Except ε β} : (.ok value >>= next) = next value := rfl

theorem mapError_eq_ok {answer : Except ε α} {change : ε → ε'} {result : α} :
    answer.mapError change = .ok result ↔ answer = .ok result := by
  cases answer with
  | ok value =>
      constructor
      · intro (same : (.ok value : Except ε' α) = .ok result)
        cases same
        rfl
      · intro same
        cases same
        rfl
  | error cause =>
      constructor
      · intro (impossible : (.error (change cause) : Except ε' α) = .ok result)
        cases impossible
      · intro impossible
        cases impossible

/-- A list of checks passes if each of them does. -/
theorem forM_eq_ok {check : α → Except ε Unit} {items : List α} :
    forM items check = .ok () ↔ ∀ item ∈ items, check item = .ok () := by
  induction items with
  | nil => simp [pure, Except.pure]
  | cons item rest ih =>
      rw [List.forM_cons, bind_eq_ok, List.forall_mem_cons, ← ih]
      exact ⟨fun ⟨_, here, rest⟩ => ⟨here, rest⟩, fun ⟨here, rest⟩ => ⟨(), here, rest⟩⟩

/-- A list of checks fails as the first of them that does not pass. -/
theorem forM_eq_error {check : α → Except ε Unit} {items : List α} {cause : ε} :
    forM items check = .error cause ↔ ∃ earlier item later, items = earlier ++ item :: later ∧
      (∀ other ∈ earlier, check other = .ok ()) ∧ check item = .error cause := by
  constructor
  · intro failed
    induction items with
    | nil => cases failed
    | cons item rest ih =>
        rw [List.forM_cons] at failed
        cases here : check item with
        | error cause' =>
            rw [here] at failed
            cases failed
            exact ⟨[], item, rest, rfl, by simp, here⟩
        | ok =>
            rw [here] at failed
            rcases ih failed with ⟨earlier, other, later, rfl, passed, failed⟩
            exact ⟨item :: earlier, other, later, rfl, List.forall_mem_cons.mpr ⟨here, passed⟩,
              failed⟩
  · rintro ⟨earlier, item, later, rfl, passed, failed⟩
    rw [List.forM_append, forM_eq_ok.mpr passed, ok_bind, List.forM_cons, failed]
    rfl

/-- Two answers that are related results or the same error. -/
inductive Alike (results : α → β → Prop) : Except ε α → Except ε β → Prop where
  | ok {value : α} {value' : β} : results value value' → Alike results (.ok value) (.ok value')
  | error (cause : ε) : Alike results (.error cause) (.error cause)

theorem Alike.eq {results : α → α → Prop} {left right : Except ε α}
    (alike : Alike results left right) (same : ∀ value value', results value value' →
      value = value') : left = right := by
  cases alike with
  | ok related => rw [same _ _ related]
  | error cause => rfl

theorem Alike.refl {results : α → α → Prop} (same : ∀ value, results value value)
    (answer : Except ε α) : Alike results answer answer := by
  cases answer with
  | ok value => exact .ok (same value)
  | error cause => exact .error cause

theorem Alike.imp {results results' : α → β → Prop} {left : Except ε α} {right : Except ε β}
    (alike : Alike results left right)
    (imp : ∀ value value', results value value' → results' value value') :
    Alike results' left right := by
  cases alike with
  | ok related => exact .ok (imp _ _ related)
  | error cause => exact .error cause

/-- Two answers that are alike to a third. -/
theorem Alike.join {γ : Type} {results : α → γ → Prop} {results' : β → γ → Prop}
    {left : Except ε α} {right : Except ε β} {middle : Except ε γ}
    (first : Alike results left middle) (second : Alike results' right middle) :
    Alike (fun value value' => ∃ between, results value between ∧ results' value' between)
      left right := by
  cases first with
  | ok related =>
      cases second with
      | ok related' => exact .ok ⟨_, related, related'⟩
  | error cause =>
      cases second with
      | error => exact .error cause

end RuleTree.Answer

namespace RuleTree.Step

variable {σ α β : Type} {state after : σ} {step : ExceptT Error (StateM σ) α}
  {next : α → ExceptT Error (StateM σ) β}

@[simp]
theorem outcome_eq {left right : Except Error α} :
    @Eq (Id (Except Error α × σ)) (left, state) (right, after) ↔
      left = right ∧ state = after := by
  show ((left, state) : Except Error α × σ) = (right, after) ↔ _
  rw [Prod.mk.injEq]

theorem bind_eq_ok {result : β} :
    (step >>= next) state = (.ok result, after) ↔
      ∃ value middle, step state = (.ok value, middle) ∧
        next value middle = (.ok result, after) := by
  show ExceptT.bind step next state = _ ↔ _
  unfold ExceptT.bind ExceptT.mk
  show (StateT.bind step (ExceptT.bindCont next)) state = _ ↔ _
  unfold StateT.bind
  show ((ExceptT.bindCont next) (step state).1 (step state).2) = _ ↔ _
  rcases outcome : step state with ⟨_ | value, middle⟩
  · constructor
    · intro impossible
      cases impossible
    · rintro ⟨value, middle, impossible, _⟩
      cases impossible
  · constructor
    · intro rest
      exact ⟨value, middle, rfl, rest⟩
    · rintro ⟨value', middle', same, rest⟩
      cases same
      exact rest

theorem bind_of_ok {value : α} {middle : σ}
    (first : step state = (.ok value, middle)) : (step >>= next) state = next value middle := by
  show ExceptT.bind step next state = _
  unfold ExceptT.bind ExceptT.mk
  show (ExceptT.bindCont next) (step state).1 (step state).2 = _
  rw [first]
  rfl

theorem bind_of_error {cause : Error} {middle : σ}
    (first : step state = (.error cause, middle)) :
    (step >>= next) state = (.error cause, middle) := by
  show ExceptT.bind step next state = _
  unfold ExceptT.bind ExceptT.mk
  show (ExceptT.bindCont next) (step state).1 (step state).2 = _
  rw [first]
  rfl

/-- A sequence depends on its first state only through its first part. -/
theorem bind_of_same {state' : σ} (same : step state = step state') :
    (step >>= next) state = (step >>= next) state' := by
  rcases outcome : step state with ⟨cause | value, middle⟩
  · rw [bind_of_error outcome, bind_of_error (same ▸ outcome)]
  · rw [bind_of_ok outcome, bind_of_ok (same ▸ outcome)]

@[simp]
theorem pure_eq_ok {value result : α} :
    (pure value : ExceptT Error (StateM σ) α) state = (.ok result, after) ↔
      value = result ∧ state = after := by
  show @Eq (Id (Except Error α × σ)) (.ok value, state) _ ↔ _
  simp

@[simp]
theorem throw_ne_ok {cause : Error} {result : α} :
    ¬(throw cause : ExceptT Error (StateM σ) α) state = (.ok result, after) := by
  intro impossible
  cases impossible

/-! ## Steps that leave a part of the state alone -/

section Keeps

variable {γ : Type} {part : σ → γ}

/-- Whether it succeeds or fails, the step leaves a part of the state as it was. -/
def Keeps (part : σ → γ) (step : ExceptT Error (StateM σ) α) : Prop :=
  ∀ state, part (step state).2 = part state

theorem Keeps.pure (value : α) : Keeps part (pure value : ExceptT Error (StateM σ) α) :=
  fun _ => rfl

theorem Keeps.throw (cause : Error) : Keeps part (throw cause : ExceptT Error (StateM σ) α) :=
  fun _ => rfl

theorem Keeps.bind (first : Keeps part step) (second : ∀ value, Keeps part (next value)) :
    Keeps part (step >>= next) := by
  intro state
  have same := first state
  rcases outcome : step state with ⟨cause | value, middle⟩
  · rw [outcome] at same
    rw [bind_of_error outcome]
    exact same
  · rw [outcome] at same
    rw [bind_of_ok outcome]
    exact (second value middle).trans same

end Keeps

/-! ## Steps that lead to certain states -/

section Leads

variable {before between : σ → Prop} {holds : α → Prop} {holds' : β → Prop}

/-- From states with one property the step leads to states with another, whether it succeeds or
fails, and its result has a third. -/
def Leads (before between : σ → Prop) (holds : α → Prop) (step : ExceptT Error (StateM σ) α) :
    Prop :=
  ∀ state, before state → between (step state).2 ∧ ∀ value, (step state).1 = .ok value → holds value

theorem Leads.pure {value : α} (given : holds value) :
    Leads before before holds (pure value : ExceptT Error (StateM σ) α) := by
  refine fun state here => ⟨here, fun value' same => ?_⟩
  exact Except.ok.inj same ▸ given

/-- What the first part leads to is kept by the rest. -/
theorem Leads.bind (first : Leads before between holds step)
    (second : ∀ value, holds value → Leads between between holds' (next value)) :
    Leads before between holds' (step >>= next) := by
  intro state here
  rcases first state here with ⟨there, given⟩
  rcases outcome : step state with ⟨cause | value, middle⟩
  · rw [outcome] at there
    rw [bind_of_error outcome]
    refine ⟨there, fun value impossible => ?_⟩
    cases impossible
  · rw [outcome] at there given
    rw [bind_of_ok outcome]
    exact second value (given value rfl) middle there

theorem Leads.of_ok {before between : σ → Prop}
    (leads : ∀ state, before state → ∃ value after, step state = (.ok value, after) ∧
      between after ∧ holds value) : Leads before between holds step := by
  intro state here
  rcases leads state here with ⟨value, after, done, there, given⟩
  rw [done]
  refine ⟨there, fun value' same => ?_⟩
  exact Except.ok.inj same ▸ given

end Leads

/-! ## Steps that do not fail -/

/-- Whatever the state is, the step gives the value. -/
def Yields (step : ExceptT Error (StateM σ) α) (value : α) : Prop :=
  ∀ state, ∃ after, step state = (.ok value, after)

theorem Yields.pure (value : α) : Yields (pure value : ExceptT Error (StateM σ) α) value :=
  fun state => ⟨state, rfl⟩

theorem Yields.bind {value : α} {result : β} (first : Yields step value)
    (second : Yields (next value) result) : Yields (step >>= next) result := by
  intro state
  rcases first state with ⟨middle, done⟩
  rcases second middle with ⟨after, done'⟩
  exact ⟨after, (bind_of_ok done).trans done'⟩

theorem Yields.eq {value result : α} (yields : Yields step value)
    (done : step state = (.ok result, after)) : value = result := by
  rcases yields state with ⟨after', done'⟩
  rw [done] at done'
  exact (Except.ok.inj (Prod.mk.inj done').1).symm

/-! ## Steps that fail for some causes only -/

section Ends

variable {fails : Error → Prop} {holds : α → Prop} {holds' : β → Prop}

/-- Whatever the state is, the step gives a result with a property, or it fails for a cause with
one. -/
def Ends (step : ExceptT Error (StateM σ) α) (holds : α → Prop) (fails : Error → Prop) : Prop :=
  ∀ state, (∃ value, (step state).1 = .ok value ∧ holds value) ∨
    ∃ cause, (step state).1 = .error cause ∧ fails cause

theorem Ends.pure {value : α} (given : holds value) :
    Ends (pure value : ExceptT Error (StateM σ) α) holds fails :=
  fun _ => .inl ⟨value, rfl, given⟩

theorem Ends.throw {cause : Error} (given : fails cause) :
    Ends (throw cause : ExceptT Error (StateM σ) α) holds fails :=
  fun _ => .inr ⟨cause, rfl, given⟩

theorem Ends.bind (first : Ends step holds fails)
    (second : ∀ value, holds value → Ends (next value) holds' fails) :
    Ends (step >>= next) holds' fails := by
  intro state
  rcases outcome : step state with ⟨answer, middle⟩
  rcases first state with ⟨value, done, given⟩ | ⟨cause, failed, given⟩
  · rw [outcome] at done
    cases done
    rw [bind_of_ok outcome]
    exact second value given middle
  · rw [outcome] at failed
    cases failed
    rw [bind_of_error outcome]
    exact .inr ⟨cause, rfl, given⟩

theorem Ends.fails_of_error (ends : Ends step holds fails) {cause : Error}
    (failed : (step state).1 = .error cause) : fails cause := by
  rcases ends state with ⟨value, done, _⟩ | ⟨cause', failed', given⟩
  · rw [failed] at done
    cases done
  · rw [failed] at failed'
    cases failed'
    exact given

end Ends

/-! ## Steps that correspond -/

section Alike

variable {σ' α' β' : Type} {states : σ → σ' → Prop} {results : α → α' → Prop}
  {results' : β → β' → Prop} {left : ExceptT Error (StateM σ) α}
  {right : ExceptT Error (StateM σ') α'}

/-- From related states the steps give related results or the same error, and they leave related
states. -/
def Alike (states : σ → σ' → Prop) (results : α → α' → Prop) (left : ExceptT Error (StateM σ) α)
    (right : ExceptT Error (StateM σ') α') : Prop :=
  ∀ state state', states state state' → states (left state).2 (right state').2 ∧
    Answer.Alike results (left state).1 (right state').1

theorem Alike.pure {value : α} {value' : α'} (related : results value value') :
    Alike states results (pure value) (pure value') :=
  fun _ _ before => ⟨before, .ok related⟩

theorem Alike.throw (cause : Error) : Alike states results (throw cause) (throw cause) :=
  fun _ _ before => ⟨before, .error cause⟩

theorem Alike.imp {results' : α → α' → Prop} {left : ExceptT Error (StateM σ) α}
    {right : ExceptT Error (StateM σ') α'} (alike : Alike states results left right)
    (imp : ∀ value value', results value value' → results' value value') :
    Alike states results' left right := by
  intro state state' related
  rcases alike state state' related with ⟨after, answers⟩
  exact ⟨after, answers.imp imp⟩

theorem Alike.bind {next' : α' → ExceptT Error (StateM σ') β'}
    (first : Alike states results left right)
    (second : ∀ value value', results value value' →
      Alike states results' (next value) (next' value')) :
    Alike states results' (left >>= next) (right >>= next') := by
  intro state state' before
  rcases first state state' before with ⟨between, answers⟩
  rcases outcome : left state with ⟨answer, middle⟩
  rcases outcome' : right state' with ⟨answer', middle'⟩
  rw [outcome, outcome'] at between answers
  cases answers with
  | ok related =>
      rw [bind_of_ok outcome, bind_of_ok outcome']
      exact second _ _ related middle middle' between
  | error cause =>
      rw [bind_of_error outcome, bind_of_error outcome']
      exact ⟨between, .error cause⟩

/-- A step that keeps a property of the state, next to itself. -/
theorem Leads.alike {here : σ → Prop} {holds : α → Prop} {step : ExceptT Error (StateM σ) α}
    (leads : Leads here here holds step) :
    Alike (fun state state' => state = state' ∧ here state)
      (fun value value' => value = value' ∧ holds value) step step := by
  rintro state _ ⟨rfl, before⟩
  rcases leads state before with ⟨after, given⟩
  rcases outcome : step state with ⟨cause | value, middle⟩
  · rw [outcome] at after
    exact ⟨⟨rfl, after⟩, .error cause⟩
  · rw [outcome] at after given
    exact ⟨⟨rfl, after⟩, .ok ⟨rfl, given value rfl⟩⟩

theorem Alike.refl (step : ExceptT Error (StateM σ) α) : Alike Eq Eq step step := by
  rintro state _ rfl
  exact ⟨rfl, .refl (fun _ => rfl) _⟩

theorem Alike.eq {left right : ExceptT Error (StateM σ) α} (alike : Alike Eq Eq left right) :
    left = right := by
  funext state
  rcases alike state state rfl with ⟨states, answers⟩
  exact Prod.ext (answers.eq fun _ _ same => same) states

end Alike

end RuleTree.Step
