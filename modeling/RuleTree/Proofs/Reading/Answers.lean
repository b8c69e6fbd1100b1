import RuleTree.Proofs.Reading.Cost
import RuleTree.Proofs.Reading.Entries

/-!
# Answers to queries

Queries are put to a snapshot one after the other; one that fails does not keep the next from being
put.  In a complete store the snapshot stays faithful whatever it is asked, and it gives the answers
that are found node by node (`Query.alike_answer`).
-/

namespace RuleTree

open Step Records Reading Snapshot

variable {records : Records} {reading : Reading}

namespace Reading

theorem map_outcome {α β : Type} (f : α → β) (step : ReadM α) (reading : Reading) :
    (f <$> step) reading = ((step reading).1.map f, (step reading).2) := by
  rw [map_eq_pure_bind]
  rcases outcome : step reading with ⟨cause | value, after⟩
  · rw [bind_of_error outcome]
    rfl
  · rw [bind_of_ok outcome]
    rfl

/-- A node that is not stored cannot be loaded. -/
theorem ensure_of_absent {id : NodeId} (faithful : Faithful records reading.snapshot)
    (absent : records.nodes.get? id = none) :
    ensure records id reading = (.error (.store (.nodeNotFound id)),
      { reading with opened := true, fetches := reading.fetches + 1 }) := by
  have uncovered : reading.snapshot.children.get? id = none := by
    cases known : reading.snapshot.children.get? id with
    | none => rfl
    | some ids =>
        rcases (faithful.children known).2 id (List.mem_cons_self ..) with ⟨node, found⟩
        have stored := faithful.nodes found
        rw [absent] at stored
        cases stored
  have unlisted : records.subtree id = .error (.nodeNotFound id) := by simp [subtree, absent]
  rw [ensure_of_uncovered uncovered, load_of_unlisted unlisted]

/-! ## The same answers either way -/

/-- Both ways fail for a node that is not stored, and neither needs to have read anything before. -/
theorem alike_absent {α : Type} {id : NodeId} {next : Unit → ReadM α} {direct : ReadM α}
    (absent : records.nodes.get? id = none)
    (failed : ∀ reading, (direct reading).1 = .error (.store (.nodeNotFound id))) :
    Alike (Faithfully records) Eq (ensure records id >>= next) direct := by
  intro reading reading' faithful
  have stopped := ensure_of_absent faithful absent
  rw [bind_of_error stopped, failed]
  exact ⟨faithful, .error _⟩

theorem alike_children_complete (tidy : Tidy records) (complete : Complete records) (asked : Node) :
    Alike (Faithfully records) Eq (children records .cached asked)
      (children records .direct asked) := by
  cases found : records.nodes.get? asked.id with
  | none =>
      refine alike_absent found fun reading => ?_
      have unlisted : records.childrenOf asked.id = .error (.nodeNotFound asked.id) := by
        simp [childrenOf, Table.contains, found]
      rw [children, directChildren, bind_of_error (fetch_of_error unlisted)]
  | some node =>
      -- Of the record that is given only the number matters.
      have same := tidy.linked.keyed found
      have given (access : Access) : children records access asked =
          children records access node := by
        cases access <;> simp [children, cachedChildren, directChildren, same]
      rw [given, given]
      exact (alike_children tidy (complete.sound (same ▸ found))).imp fun _ _ agree => agree.1

theorem alike_node (tidy : Tidy records) (complete : Complete records) (id : NodeId) :
    Alike (Faithfully records) Eq (node records .cached id) (node records .direct id) := by
  cases found : records.nodes.get? id with
  | none =>
      refine alike_absent found fun reading => ?_
      have missing : records.node id = .error (.nodeNotFound id) := by simp [Records.node, found]
      rw [node, fetch_of_error missing]
  | some stored =>
      rcases tidy.linked.keyed found with rfl
      intro reading reading' faithful
      rcases ensure_spec tidy (complete.sound found) faithful with
        ⟨middle, ensured, faithful_middle, ids, covered⟩
      rcases (faithful_middle.children covered).2 stored.id (List.mem_cons_self ..) with
        ⟨known, known_found⟩
      have same := faithful_middle.nodes known_found
      rw [found] at same
      rcases Option.some.inj same with rfl
      have cached : node records .cached stored.id reading = (.ok stored, middle) := by
        refine bind_eq_ok.mpr ⟨(), middle, ensured, bind_eq_ok.mpr ⟨_, _, rfl, ?_⟩⟩
        simp only [known_found]
        rfl
      have present : records.node stored.id = .ok stored := by simp [Records.node, found]
      have direct : node records .direct stored.id reading' =
          (.ok stored, { reading' with fetches := reading'.fetches + 1 }) :=
        fetch_eq_ok.mpr ⟨present, rfl⟩
      rw [cached, direct]
      exact ⟨faithful_middle, .ok rfl⟩

theorem alike_object_complete (complete : Complete records) (ref : ContentRef) :
    Alike (Faithfully records) Eq (object records .cached ref) (object records .direct ref) := by
  refine alike_cachedObject ?_
  rintro content found definition rfl
  exact complete.definitions found

theorem alike_content_complete (tidy : Tidy records) (complete : Complete records) {asked : Node}
    (addressed : asked.content ≠ none → ∃ node, records.nodes.get? asked.id = some node) :
    Alike (Faithfully records) Eq (content records .cached asked)
      (content records .direct asked) := by
  cases wraps : asked.content with
  | none =>
      have direct : content records .direct asked = pure none := by
        simp only [content, wraps]
      rw [content_of_block wraps, direct]
      exact .pure rfl
  | some ref =>
      rcases addressed (by simp [wraps]) with ⟨stored, found⟩
      have same := tidy.linked.keyed found
      have cached : content records .cached asked =
          (ensure records asked.id >>= fun _ => some <$> object records .cached ref) := by
        simp only [content, cachedContent, wraps, object]
      have direct : content records .direct asked = some <$> object records .direct ref := by
        simp only [content, wraps, object]
      intro reading reading' faithful
      rcases ensure_spec tidy (complete.sound (same ▸ found)) faithful with
        ⟨middle, ensured, faithful_middle, _⟩
      rw [same] at ensured
      rw [cached, direct, bind_of_ok ensured, map_eq_pure_bind, map_eq_pure_bind]
      exact (alike_object_complete complete ref).bind
        (fun value value' agree => .pure (congrArg some agree)) middle reading' faithful_middle

end Reading

/-! ## Sequences of queries -/

/-- The answer to a query. -/
inductive Reply where
  | nodes (nodes : List Node)
  | content (content : Option Content)
  | node (node : Node)
  | object (content : Content)

namespace Query

/-- Answers a query by one way to read. -/
def answer (records : Records) (access : Access) : Query → ReadM Reply
  | .children asked => .nodes <$> Reading.children records access asked
  | .content asked => .content <$> Reading.content records access asked
  | .node id => .node <$> Reading.node records access id
  | .object ref => .object <$> Reading.object records access ref

/-- The reading after several queries. -/
def askAll (records : Records) (reading : Reading) (queries : List Query) : Reading :=
  queries.foldl (fun reading query => query.ask records reading) reading

theorem ask_eq (query : Query) (reading : Reading) :
    query.ask records reading = (query.answer records .cached reading).2 := by
  cases query <;> simp [ask, answer, map_outcome]

/-- The object of a node is asked for only if the node is stored, whatever object the record names.
Everything else may be asked about any number and any address. -/
def Addressed (records : Records) : Query → Prop
  | .content asked => asked.content ≠ none → ∃ node, records.nodes.get? asked.id = some node
  | _ => True

/-- In a complete store a faithful snapshot answers as the records do. -/
theorem alike_answer (tidy : Tidy records) (complete : Complete records) {query : Query}
    (addressed : query.Addressed records) :
    Alike (Faithfully records) Eq (query.answer records .cached)
      (query.answer records .direct) := by
  have wrapped {α : Type} {left right : ReadM α} (wrap : α → Reply)
      (alike : Alike (Faithfully records) Eq left right) :
      Alike (Faithfully records) Eq (wrap <$> left) (wrap <$> right) := by
    rw [map_eq_pure_bind, map_eq_pure_bind]
    exact alike.bind fun value value' agree => .pure (congrArg wrap agree)
  cases query with
  | children asked => exact wrapped _ (alike_children_complete tidy complete asked)
  | content asked => exact wrapped _ (alike_content_complete tidy complete addressed)
  | node id => exact wrapped _ (alike_node tidy complete id)
  | object ref => exact wrapped _ (alike_object_complete complete ref)

/-- Whatever it is asked, a snapshot of a complete store stays faithful. -/
theorem faithful_ask (tidy : Tidy records) (complete : Complete records) (query : Query)
    (faithful : Faithful records reading.snapshot) :
    Faithful records (query.ask records reading).snapshot := by
  by_cases addressed : query.Addressed records
  · rw [ask_eq]
    exact (alike_answer tidy complete addressed reading start faithful).1
  · -- The object of a node that is not stored is asked for, and nothing is loaded.
    cases query with
    | content asked =>
        rcases Classical.not_imp.mp addressed with ⟨wraps, absent⟩
        rcases Option.ne_none_iff_exists'.mp wraps with ⟨ref, wraps⟩
        have missing : records.nodes.get? asked.id = none := by
          cases found : records.nodes.get? asked.id with
          | none => rfl
          | some node => exact absurd ⟨node, found⟩ absent
        have stopped : Reading.content records .cached asked reading =
            (.error (.store (.nodeNotFound asked.id)),
              { reading with opened := true, fetches := reading.fetches + 1 }) := by
          simp only [Reading.content, cachedContent, wraps]
          exact bind_of_error (ensure_of_absent faithful missing)
        rw [ask, stopped]
        exact faithful
    | _ => exact absurd trivial addressed

theorem faithful_askAll (tidy : Tidy records) (complete : Complete records)
    (queries : List Query) (faithful : Faithful records reading.snapshot) :
    Faithful records (askAll records reading queries).snapshot := by
  induction queries generalizing reading with
  | nil => exact faithful
  | cons query rest ih => exact ih (faithful_ask tidy complete query faithful)

end Query

end RuleTree
