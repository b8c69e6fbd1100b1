import RuleTree.Proofs.Reading.Answers
import RuleTree.Proofs.Tree.Removal
import Mathlib

/-!
# Queries that fail

A load enters the nodes of a tree before it asks for their objects.  When an object is missing the
load fails, but the nodes stay covered, and the tree is not loaded again.  So a query that failed
for an object it did not ask for does not fail so again; every other failure is repeated
(`Filled.fails_again_iff`).
-/

namespace RuleTree

open Step Records Reading Snapshot

/-! ## Records of any content -/

/-- The records that writes of every kind lead to, in any order.  A node or an object that is given
the next number is entered under it.  Nodes may be written that lie below themselves.  Listing the
tree of such a node does not come to an end, and the records put `StoreError.endlessDescent` in the
place of an answer. -/
inductive Filled : Records → Prop where
  | empty : Filled .empty
  | insertNode {records : Records} (node : Node) : Filled records →
      Filled (records.insertNode node)
  | insertObject {records : Records} (ref : ContentRef) (content : Content) : Filled records →
      Filled (records.insertObject ref content)
  | setPosition {records after : Records} {id : NodeId} {position : Nat} : Filled records →
      records.setPosition id position = .ok after → Filled after
  | removeObject {records after : Records} {ref : ContentRef} : Filled records →
      records.removeObject ref = .ok after → Filled after
  | removeSubtree {records after : Records} {root : NodeId} : Filled records →
      records.removeSubtree root = .ok after → Filled after

/-- Each node stands under its own number. -/
theorem Filled.keyed {records : Records} (filled : Filled records) {id : NodeId} {node : Node}
    (found : records.nodes.get? id = some node) : node.id = id := by
  induction filled generalizing id node with
  | empty => cases found
  | insertNode other _ ih =>
      rcases get?_insertNode_cases found with ⟨rfl, rfl⟩ | ⟨_, old⟩
      · rfl
      · exact ih old
  | insertObject ref content _ ih => exact ih found
  | setPosition _ done ih =>
      unfold Records.setPosition at done
      split at done
      · rename_i old old_found
        have same := ih old_found
        cases done
        rcases Table.get?_insert_cases found with ⟨rfl, rfl⟩ | ⟨_, old⟩
        · exact same
        · exact ih old
      · cases done
  | removeObject _ done ih =>
      unfold Records.removeObject at done
      split at done
      · cases done
        exact ih found
      · cases done
  | removeSubtree _ done ih =>
      unfold Records.removeSubtree at done
      split at done
      · cases done
      · cases done
        rcases Records.removeBelow_spec _ [_] with ⟨gone, nodes, _⟩
        rw [nodes] at found
        split at found
        · cases found
        · exact ih found

variable {records : Records} {reading after : Reading} {cause : Error}

/-! ## What a snapshot always is -/

/-- Covered nodes and the children in their lists were entered, and objects are as they are stored.
This holds even of trees for which not everything is stored. -/
structure Snapshot.Traced (records : Records) (snapshot : Snapshot) : Prop where
  covered : ∀ {id}, snapshot.covers id = true → ∃ node, snapshot.nodes.get? id = some node
  children : ∀ {id ids}, snapshot.children.get? id = some ids → ∀ child ∈ ids,
    ∃ node, snapshot.nodes.get? child = some node
  objects : ∀ {ref content}, snapshot.objects.get? ref = some content →
    records.objects.get? ref = some content

namespace Snapshot

theorem traced_empty : Traced records empty where
  covered known := by simp [covers, empty, Table.contains] at known
  children known := by simp [empty] at known
  objects known := by simp [empty] at known

theorem Traced.enter {snapshot : Snapshot} (traced : Traced records snapshot) (root : NodeId)
    (nodes : List Node) : Traced records (snapshot.enter root nodes) := by
  have entered {id : NodeId}
      (given : (∃ node, snapshot.nodes.get? id = some node) ∨ id ∈ nodes.map Node.id) :
      ∃ node, (snapshot.enter root nodes).nodes.get? id = some node := by
    rw [get?_nodes_enter]
    rcases given with ⟨node, known⟩ | listed
    · exact ⟨node, by rw [known]; rfl⟩
    · rcases List.mem_map.mp listed with ⟨node, member, same⟩
      apply Option.isSome_iff_exists.mp
      rw [Option.isSome_or, Bool.or_eq_true, List.find?_isSome]
      exact .inr ⟨node, member, by simpa using same⟩
  refine ⟨fun known => ?_, fun known child member => ?_, fun known => ?_⟩
  · exact entered ((covers_enter.mp known).imp_left traced.covered)
  · rcases mem_children_enter known member with ⟨before, known_before, old⟩ | listed
    · exact entered (.inl (traced.children known_before child old))
    · exact entered (.inr listed)
  · rw [objects_enter] at known
    exact traced.objects known

/-- Objects may come into a traced snapshot as they are stored. -/
theorem Traced.with_objects {snapshot : Snapshot} (traced : Traced records snapshot)
    {objects : Table ContentRef Content}
    (stored : ∀ {ref content}, objects.get? ref = some content →
      records.objects.get? ref = some content) :
    Traced records { snapshot with objects } :=
  ⟨traced.covered, traced.children, stored⟩

end Snapshot

namespace Reading

/-- The snapshot of a reading is traced. -/
def Tracing (records : Records) (reading : Reading) : Prop := Traced records reading.snapshot

/-- It is traced, and it covers a node. -/
def Standing (records : Records) (id : NodeId) (reading : Reading) : Prop :=
  Tracing records reading ∧ reading.snapshot.covers id = true

theorem leads_fetch {α : Type} {here : Reading → Prop} {answer : Except StoreError α}
    (kept : ∀ reading fetches, here reading → here { reading with fetches }) :
    Leads here here (fun value => answer = .ok value) (fetch answer) :=
  fun reading before => ⟨kept reading _ before, fun _ done => Answer.mapError_eq_ok.mp done⟩

theorem leads_now {here : Reading → Prop} : Leads here here (fun _ => True) snapshotNow :=
  fun _ before => ⟨before, by simp⟩

theorem leads_give {α : Type} {here : Reading → Prop} {answer : Except StoreError α} :
    Leads here here (fun _ => True) (give answer) :=
  fun _ before => ⟨before, by simp⟩

theorem leads_loadGroups (groups : List (Kind × List ObjectId)) :
    Leads (Tracing records) (Tracing records) (fun _ => True) (loadGroups records groups) := by
  induction groups with
  | nil => exact .pure trivial
  | cons group rest ih =>
      rcases group with ⟨kind, ids⟩
      refine (leads_fetch fun _ _ traced => traced).bind fun pairs found => ?_
      have entered : Leads (Tracing records) (Tracing records) (fun _ => True)
          (modifySnapshot (·.enterObjects kind pairs)) := by
        refine fun reading traced => ⟨traced.with_objects fun {ref content} known => ?_, by simp⟩
        have known : (reading.snapshot.enterObjects kind pairs).objects.get? ref =
            some content := known
        rw [get?_enterObjects found] at known
        split at known
        · exact known
        · exact traced.objects known
      exact entered.bind fun _ _ => ih

theorem leads_loadObjects (refs : List ContentRef) :
    Leads (Tracing records) (Tracing records) (fun _ => True) (loadObjects records refs) := by
  exact leads_now.bind fun snapshot _ => leads_loadGroups _

theorem leads_load (root : NodeId) :
    Leads (Tracing records) (Tracing records) (fun _ => True) (load records root) := by
  have entered (nodes : List Node) : Leads (Tracing records) (Tracing records) (fun _ => True)
      (modifySnapshot (·.enter root nodes)) :=
    fun reading traced => ⟨traced.enter root nodes, by simp⟩
  refine (leads_fetch fun _ _ traced => traced).bind fun nodes _ => ?_
  refine (entered nodes).bind fun _ _ => (leads_loadObjects _).bind fun _ _ => ?_
  exact leads_now.bind fun snapshot _ => leads_loadObjects _

theorem leads_ensure (id : NodeId) :
    Leads (Tracing records) (Tracing records) (fun _ => True) (ensure records id) := by
  have marked : Leads (Tracing records) (Tracing records) (fun _ => True) markOpened :=
    fun reading traced => ⟨traced, by simp⟩
  refine marked.bind fun _ _ => leads_now.bind fun snapshot _ => ?_
  split
  · exact .pure trivial
  · exact leads_load id

/-! ## Failures of a load -/

/-- An object is missed that is not stored. -/
def Missing (records : Records) (cause : Error) : Prop :=
  ∃ ref, cause = .store (.objectNotFound ref) ∧ records.objects.get? ref = none

theorem objectsOf_eq_error {kind : Kind} {ids : List ObjectId} {cause : StoreError}
    (failed : records.objectsOf kind ids = .error cause) : Missing records (.store cause) := by
  induction ids with
  | nil => cases failed
  | cons id rest ih =>
      unfold objectsOf at failed
      cases found : records.objects.get? ⟨kind, id⟩ with
      | none =>
          simp only [Records.object, found] at failed
          cases failed
          exact ⟨_, rfl, found⟩
      | some content =>
          simp only [Records.object, found, Answer.ok_bind] at failed
          cases others : records.objectsOf kind rest with
          | error cause' =>
              rw [others] at failed
              cases failed
              exact ih others
          | ok pairs =>
              rw [others] at failed
              cases failed

theorem ends_now {fails : Error → Prop} : Ends snapshotNow (fun _ => True) fails :=
  fun reading => .inl ⟨reading.snapshot, rfl, trivial⟩

theorem ends_modifySnapshot {fails : Error → Prop} (change : Snapshot → Snapshot) :
    Ends (modifySnapshot change) (fun _ => True) fails :=
  fun _ => .inl ⟨(), rfl, trivial⟩

theorem ends_loadObjects (refs : List ContentRef) :
    Ends (loadObjects records refs) (fun _ => True) (Missing records) := by
  have groups (groups : List (Kind × List ObjectId)) :
      Ends (loadGroups records groups) (fun _ => True) (Missing records) := by
    induction groups with
    | nil => exact .pure trivial
    | cons group rest ih =>
        rcases group with ⟨kind, ids⟩
        have fetched : Ends (fetch (records.objectsOf kind ids)) (fun _ => True)
            (Missing records) := by
          intro reading
          cases found : records.objectsOf kind ids with
          | ok pairs => exact .inl ⟨pairs, rfl, trivial⟩
          | error cause => exact .inr ⟨_, rfl, objectsOf_eq_error found⟩
        exact fetched.bind fun pairs _ => (ends_modifySnapshot _).bind fun _ _ => ih
  exact ends_now.bind fun snapshot _ => groups _

/-- Once the nodes are listed, a load fails only for an object that is not stored. -/
theorem missing_of_load {root : NodeId} {nodes : List Node}
    (listed : records.subtree root = .ok nodes)
    (failed : (load records root reading).1 = .error cause) : Missing records cause := by
  have rest : Ends (fetch (records.subtree root) >>= fun nodes => do
      modifySnapshot (·.enter root nodes)
      loadObjects records (nodes.filterMap Node.content)
      let snapshot ← snapshotNow
      loadObjects records snapshot.namedDefinitions) (fun _ => True) (Missing records) := by
    rw [listed]
    have fetched : Ends (fetch (.ok nodes)) (· = nodes) (Missing records) :=
      fun _ => .inl ⟨nodes, rfl, rfl⟩
    refine fetched.bind ?_
    rintro _ rfl
    refine (ends_modifySnapshot _).bind fun _ _ => (ends_loadObjects _).bind fun _ _ => ?_
    exact ends_now.bind fun snapshot _ => ends_loadObjects _
  exact rest.fails_of_error failed

theorem subtree_eq_error {root : NodeId} {cause : StoreError}
    (failed : records.subtree root = .error cause) (ref : ContentRef) :
    cause ≠ .objectNotFound ref := by
  unfold subtree at failed
  split at failed
  · cases failed
    simp
  · split at failed
    · cases failed
    · cases failed
      simp

/-- The listing of a tree begins with its root. -/
theorem mem_subtree (filled : Filled records) {root : NodeId} {nodes : List Node}
    (listed : records.subtree root = .ok nodes) : root ∈ nodes.map Node.id := by
  unfold subtree at listed
  split at listed
  · cases listed
  · rename_i node found
    split at listed
    · cases listed
      exact List.mem_map.mpr ⟨node, List.mem_cons_self .., filled.keyed found⟩
    · cases listed

/-! ## Asking again -/

/-- How a tree is made sure of: it is there afterwards, or one of its objects is missed though its
nodes are there, or it cannot be listed. -/
inductive Ensured (records : Records) (id : NodeId) : Except Error Unit → Reading → Prop where
  | loaded {middle : Reading} : Standing records id middle → Ensured records id (.ok ()) middle
  | missing {cause : Error} {middle : Reading} : Missing records cause →
      Standing records id middle → Ensured records id (.error cause) middle
  | unlisted {cause : StoreError} {middle : Reading} : records.subtree id = .error cause →
      middle.snapshot.covers id = false → Ensured records id (.error (.store cause)) middle

theorem ensure_of_standing {id : NodeId} (standing : Standing records id reading) :
    ensure records id reading = (.ok (), { reading with opened := true }) := by
  rcases covers_iff.mp standing.2 with ⟨ids, known⟩
  exact ensure_of_covered known

theorem ensured (filled : Filled records) (id : NodeId) (traced : Tracing records reading) :
    Ensured records id (ensure records id reading).1 (ensure records id reading).2 := by
  have traced_after := (leads_ensure id reading traced).1
  cases known : reading.snapshot.children.get? id with
  | some ids =>
      have covered : reading.snapshot.covers id = true := covers_iff.mpr ⟨ids, known⟩
      rw [ensure_of_covered known]
      exact .loaded ⟨traced, covered⟩
  | none =>
      have uncovered : reading.snapshot.covers id = false := by
        simp [covers, Table.contains, known]
      rw [ensure_of_uncovered known] at traced_after ⊢
      cases listed : records.subtree id with
      | error cause =>
          rw [load_of_unlisted listed]
          exact .unlisted listed uncovered
      | ok nodes =>
          have covered : (load records id { reading with opened := true }).2.snapshot.covers id =
              true := covers_load.mpr (.inr ⟨nodes, listed, mem_subtree filled listed⟩)
          cases failed : (load records id { reading with opened := true }).1 with
          | ok _ => exact .loaded ⟨traced_after, covered⟩
          | error cause => exact .missing (missing_of_load listed failed) ⟨traced_after, covered⟩

/-- A step that is taken once a tree is there: it leaves the tree there, and whatever else was read
it fails for the same causes, each of which is an object that is not stored. -/
structure Follows {α : Type} (records : Records) (id : NodeId) (fails : Error → Prop)
    (step : ReadM α) : Prop where
  leads : Leads (Standing records id) (Standing records id) (fun _ => True) step
  error_iff : ∀ {reading cause}, Standing records id reading →
    ((step reading).1 = .error cause ↔ fails cause)
  missing : ∀ {cause}, fails cause → Missing records cause

/-- A tree is made sure of, something is read from it, and this fails.  If an object was missed, the
same happens again only if it is missed by the rest; any other failure is repeated. -/
theorem ensure_again {α : Type} {id : NodeId} {fails : Error → Prop} {next : Unit → ReadM α}
    (filled : Filled records) (follows : Follows records id fails (next ()))
    (traced : Tracing records reading)
    (failed : (ensure records id >>= next) reading = (.error cause, after)) :
    (Missing records cause ∧
      (((ensure records id >>= next) after).1 = .error cause ↔ fails cause)) ∨
    ((∀ ref, cause ≠ .store (.objectNotFound ref)) ∧
      ((ensure records id >>= next) after).1 = .error cause) := by
  have again (standing : Standing records id after) :
      ((ensure records id >>= next) after).1 = .error cause ↔ fails cause := by
    rw [bind_of_ok (ensure_of_standing standing)]
    have opened : Standing records id { after with opened := true } := standing
    exact follows.error_iff opened
  rcases outcome : ensure records id reading with ⟨answer, middle⟩
  have ensured := ensured filled id traced
  rw [outcome] at ensured
  cases ensured with
  | loaded standing =>
      rw [bind_of_ok outcome] at failed
      have cause_fails := (follows.error_iff standing).mp (congrArg Prod.fst failed)
      have standing_after := (follows.leads middle standing).1
      rw [failed] at standing_after
      exact .inl ⟨follows.missing cause_fails, again standing_after⟩
  | missing missing standing =>
      rw [bind_of_error outcome] at failed
      cases failed
      exact .inl ⟨missing, again standing⟩
  | unlisted unlisted uncovered =>
      rw [bind_of_error outcome] at failed
      cases failed
      have unknown : after.snapshot.children.get? id = none := by
        simpa [covers, Table.contains] using uncovered
      have repeated := (ensure_of_uncovered unknown).trans (load_of_unlisted unlisted)
      refine .inr ⟨fun ref same => ?_, by rw [bind_of_error repeated]⟩
      exact subtree_eq_error unlisted ref (Error.store.inj same)

/-- What is only read from a tree that is there is always found. -/
theorem Follows.of_found {α : Type} {id : NodeId} {step : ReadM α}
    (found : ∀ reading, Standing records id reading →
      ∃ value, step reading = (.ok value, reading)) :
    Follows records id (fun _ => False) step where
  leads reading standing := by
    rcases found reading standing with ⟨value, done⟩
    rw [done]
    exact ⟨standing, by simp⟩
  error_iff {reading cause} standing := by
    rcases found reading standing with ⟨value, done⟩
    rw [done]
    simp
  missing := False.elim

theorem follows_children (asked : Node) : Follows records asked.id (fun _ => False) (do
    let snapshot ← snapshotNow
    match snapshot.children.get? asked.id with
    | none => give (.error (.nodeNotFound asked.id))
    | some ids => give (loadedNodes snapshot ids)) := by
  refine .of_found fun reading standing => ?_
  rcases covers_iff.mp standing.2 with ⟨ids, known⟩
  have listed : ∀ below ⊆ ids, ∃ nodes, loadedNodes reading.snapshot below = .ok nodes := by
    intro below
    induction below with
    | nil => exact fun _ => ⟨[], rfl⟩
    | cons child rest ih =>
        intro inside
        rcases standing.1.children known child (inside (by simp)) with ⟨node, found⟩
        rcases ih (List.subset_of_cons_subset inside) with ⟨nodes, others⟩
        exact ⟨node :: nodes, by simp [loadedNodes, found, others, Except.map]⟩
  rcases listed ids (List.Subset.refl ids) with ⟨nodes, found⟩
  refine ⟨nodes, bind_eq_ok.mpr ⟨_, _, rfl, ?_⟩⟩
  simp only [known, found]
  rfl

theorem follows_node (id : NodeId) : Follows records id (fun _ => False) (do
    let snapshot ← snapshotNow
    match snapshot.nodes.get? id with
    | some node => pure node
    | none => give (.error (.nodeNotFound id))) := by
  refine .of_found fun reading standing => ?_
  rcases standing.1.covered standing.2 with ⟨node, found⟩
  refine ⟨node, bind_eq_ok.mpr ⟨_, _, rfl, ?_⟩⟩
  simp only [found]
  rfl

/-- An object that is asked for by its address is fetched at most once, and only if it is stored. -/
theorem cachedObject_cases (ref : ContentRef) (traced : Tracing records reading) :
    (∃ content after, cachedObject records ref reading = (.ok content, after) ∧
      records.objects.get? ref = some content ∧ Tracing records after ∧
        after.tree = reading.tree) ∨
      ∃ after, cachedObject records ref reading =
          (.error (.store (.objectNotFound ref)), after) ∧
        records.objects.get? ref = none ∧ after.snapshot = reading.snapshot := by
  cases known : reading.snapshot.objects.get? ref with
  | some content =>
      exact .inl ⟨content, _, cachedObject_of_known known, traced.objects known, traced, rfl⟩
  | none =>
      cases found : records.objects.get? ref with
      | none => exact .inr ⟨_, cachedObject_of_absent known found, rfl, rfl⟩
      | some content =>
          refine .inl ⟨content, _, cachedObject_of_stored known found, rfl,
            traced.with_objects fun {other content'} known' => ?_, rfl⟩
          rcases Table.get?_insert_cases known' with ⟨rfl, rfl⟩ | ⟨_, old⟩
          · exact found
          · exact traced.objects old

theorem leads_cachedObject (ref : ContentRef) :
    Leads (Tracing records) (Tracing records) (fun _ => True) (cachedObject records ref) := by
  intro reading traced
  rcases cachedObject_cases ref traced with ⟨content, after, done, _, traced_after, _⟩ |
    ⟨after, failed, _, same⟩
  · rw [done]
    exact ⟨traced_after, by simp⟩
  · rw [failed]
    refine ⟨?_, by simp⟩
    unfold Tracing
    rw [same]
    exact traced

theorem cachedObject_error_iff {ref : ContentRef} (traced : Tracing records reading) :
    (cachedObject records ref reading).1 = .error cause ↔
      cause = .store (.objectNotFound ref) ∧ records.objects.get? ref = none := by
  rcases cachedObject_cases ref traced with ⟨content, after, done, found, _⟩ |
    ⟨after, failed, absent, _⟩
  · rw [done]
    simp [found]
  · rw [failed]
    simp [absent, eq_comm]

theorem follows_object (id : NodeId) (ref : ContentRef) :
    Follows records id
      (fun cause => cause = .store (.objectNotFound ref) ∧ records.objects.get? ref = none)
      (some <$> cachedObject records ref) := by
  refine ⟨fun reading standing => ?_, fun {reading cause} standing => ?_, fun given => ⟨ref, given⟩⟩
  · rw [map_outcome]
    refine ⟨⟨(leads_cachedObject ref reading standing.1).1, ?_⟩, by simp⟩
    have same : (cachedObject records ref reading).2.tree = reading.tree := by
      rcases cachedObject_cases ref standing.1 with ⟨content, after, done, _, _, same⟩ |
        ⟨after, failed, _, same⟩
      · rw [done]
        exact same
      · rw [failed]
        exact congrArg (fun snapshot => (snapshot.nodes, snapshot.children)) same
    have children : (cachedObject records ref reading).2.snapshot.children =
        reading.snapshot.children := congrArg Prod.snd same
    unfold covers
    rw [children]
    exact standing.2
  · rw [map_outcome, ← cachedObject_error_iff standing.1]
    cases (cachedObject records ref reading).1 <;> simp [Except.map]

theorem leads_map {α β : Type} {here : Reading → Prop} {step : ReadM α} (wrap : α → β)
    (leads : Leads here here (fun _ => True) step) :
    Leads here here (fun _ => True) (wrap <$> step) := by
  rw [map_eq_pure_bind]
  exact leads.bind fun value _ => .pure trivial

theorem map_eq_error {α β : Type} {wrap : α → β} {step : ReadM α} :
    (wrap <$> step) reading = (.error cause, after) ↔ step reading = (.error cause, after) := by
  rw [map_outcome]
  rcases step reading with ⟨cause' | value, middle⟩ <;> simp [Except.map]

theorem map_fst_eq_error {α β : Type} {wrap : α → β} {step : ReadM α} :
    ((wrap <$> step) reading).1 = .error cause ↔ (step reading).1 = .error cause := by
  rw [map_outcome]
  rcases step reading with ⟨cause' | value, middle⟩ <;> simp [Except.map]

end Reading

/-! ## Sequences of queries -/

namespace Query

/-- The object that the query asks for. -/
def object? : Query → Option ContentRef
  | .content asked => asked.content
  | .object ref => some ref
  | _ => none

/-- Whatever is asked, the snapshot stays traced. -/
theorem leads_answer (query : Query) :
    Leads (Tracing records) (Tracing records) (fun _ => True) (query.answer records .cached) := by
  cases query with
  | children asked =>
      refine leads_map _ ((leads_ensure _).bind fun _ _ => leads_now.bind fun snapshot _ => ?_)
      split <;> exact leads_give
  | node id =>
      refine leads_map _ ((leads_ensure _).bind fun _ _ => leads_now.bind fun snapshot _ => ?_)
      split
      · exact .pure trivial
      · exact leads_give
  | object ref => exact leads_map _ (leads_cachedObject ref)
  | content asked =>
      refine leads_map _ ?_
      cases wraps : asked.content with
      | none =>
          rw [content_of_block wraps]
          exact .pure trivial
      | some ref =>
          simp only [Reading.content, cachedContent, wraps]
          exact (leads_ensure _).bind fun _ _ => leads_map _ (leads_cachedObject ref)

theorem tracing_askAll (queries : List Query) (traced : Tracing records reading) :
    Tracing records (askAll records reading queries) := by
  induction queries generalizing reading with
  | nil => exact traced
  | cons query rest ih =>
      have next := (leads_answer query reading traced).1
      rw [← ask_eq] at next
      exact ih next

/-- A query that failed fails again for the same cause, unless it failed for an object that it did
not ask for. -/
theorem answer_again (filled : Filled records) {query : Query} (traced : Tracing records reading)
    (failed : query.answer records .cached reading = (.error cause, after)) :
    (query.answer records .cached after).1 = .error cause ↔
      ∀ ref, cause = .store (.objectNotFound ref) → query.object? = some ref := by
  -- A query for nodes asks for no object, so it succeeds once the nodes are there.
  have nodes_again {α : Type} {id : NodeId} {next : Unit → ReadM α} {wrap : α → Reply}
      (follows : Follows records id (fun _ => False) (next ()))
      (failed : (wrap <$> (ensure records id >>= next)) reading = (.error cause, after)) :
      ((wrap <$> (ensure records id >>= next)) after).1 = .error cause ↔
        ∀ ref, cause = .store (.objectNotFound ref) → none = some ref := by
    rw [map_fst_eq_error]
    rcases ensure_again filled follows traced (map_eq_error.mp failed) with
      ⟨⟨ref, rfl, _⟩, again⟩ | ⟨other, again⟩
    · simp [again]
    · simp [again, other]
  cases query with
  | children asked => exact nodes_again (follows_children asked) failed
  | node id => exact nodes_again (follows_node id) failed
  | object ref =>
      have failed : cachedObject records ref reading = (.error cause, after) :=
        map_eq_error.mp failed
      have traced_after := (leads_cachedObject ref reading traced).1
      rw [failed] at traced_after
      have missed := (cachedObject_error_iff traced).mp (congrArg Prod.fst failed)
      have again : ((Query.object ref).answer records .cached after).1 = .error cause :=
        map_fst_eq_error.mpr ((cachedObject_error_iff traced_after).mpr missed)
      simp [again, missed.1, object?]
  | content asked =>
      cases wraps : asked.content with
      | none =>
          have failed := map_eq_error.mp failed
          rw [content_of_block wraps] at failed
          cases failed
      | some wrapped =>
          have read : (Query.content asked).answer records .cached = Reply.content <$>
              (ensure records asked.id >>= fun _ => some <$> cachedObject records wrapped) := by
            simp only [answer, Reading.content, cachedContent, wraps]
          rw [read] at failed ⊢
          rw [map_fst_eq_error]
          rcases ensure_again filled (follows_object asked.id wrapped) traced
            (map_eq_error.mp failed) with ⟨⟨ref, rfl, absent⟩, again⟩ | ⟨other, again⟩
          · rw [again]
            simp only [object?, wraps, Error.store.injEq, StoreError.objectNotFound.injEq,
              Option.some.injEq]
            constructor
            · rintro ⟨same, _⟩ other rfl
              exact same.symm
            · intro asks
              rcases asks ref rfl with rfl
              exact ⟨rfl, absent⟩
          · simp [again, other]

end Query

/-- After any queries, one that fails fails again for the same cause exactly if this is no missing
object or the object that it asked for.  This is because a load that fails has covered the nodes
that it lists, besides those that were covered before.  Nothing is claimed of a query that comes to
nodes which lie below themselves: it has no answer, and `StoreError.endlessDescent` only stands for
this. -/
theorem Filled.fails_again_iff (filled : Filled records) :
    (∀ (queries : List Query) (query : Query) (cause : Error) (after : Reading),
      query.answer records .cached (Query.askAll records start queries) = (.error cause, after) →
        ((query.answer records .cached after).1 = .error cause ↔
          ∀ ref, cause = .store (.objectNotFound ref) → query.object? = some ref)) ∧
    ∀ (reading : Reading) (root : NodeId) (cause : Error) (after : Reading),
      load records root reading = (.error cause, after) → ∀ id,
        (after.snapshot.covers id = true ↔ reading.snapshot.covers id = true ∨
          ∃ nodes, records.subtree root = .ok nodes ∧ id ∈ nodes.map Node.id) := by
  refine ⟨fun queries query cause after failed => ?_, fun reading root cause after failed id => ?_⟩
  · have traced : Tracing records start := traced_empty
    exact Query.answer_again filled (Query.tracing_askAll queries traced) failed
  · have covered := @covers_load records reading root id
    rw [failed] at covered
    exact covered

/-- A node whose object was never stored. -/
def hollowNode : Node := ⟨⟨1⟩, none, 0, some ⟨.boolean, ⟨1⟩⟩⟩

/-- Nothing but a node whose object is missing. -/
def hollowRecords : Records := Records.empty.insertNode hollowNode

theorem filled_hollowRecords : Filled hollowRecords := .insertNode _ .empty

/-- The object is asked for after the children of its node, and again after that. -/
theorem content_fails_again :
    ∃ after, (Query.content hollowNode).answer hollowRecords .cached
        (Query.askAll hollowRecords start [.children hollowNode]) =
          (.error (.store (.objectNotFound ⟨.boolean, ⟨1⟩⟩)), after) ∧
      ((Query.content hollowNode).answer hollowRecords .cached after).1 =
        .error (.store (.objectNotFound ⟨.boolean, ⟨1⟩⟩)) := by
  have failed : ((Query.content hollowNode).answer hollowRecords .cached
      (Query.askAll hollowRecords start [.children hollowNode])).1 =
        .error (.store (.objectNotFound ⟨.boolean, ⟨1⟩⟩)) := by cbv
  refine ⟨_, Prod.ext failed rfl, ?_⟩
  refine (filled_hollowRecords.fails_again_iff.1 _ _ _ _ (Prod.ext failed rfl)).mpr ?_
  intro ref same
  exact congrArg some (StoreError.objectNotFound.inj (Error.store.inj same))

/-- The children of the node are not found at first, for the load that they need fails.  Asked for
again they are found, since the failed load has covered the node. -/
theorem children_fail_once :
    ((Query.children hollowNode).answer hollowRecords .cached start).1 =
        .error (.store (.objectNotFound ⟨.boolean, ⟨1⟩⟩)) ∧
      ((Query.children hollowNode).answer hollowRecords .cached
        (Query.askAll hollowRecords start [.children hollowNode])).1 = .ok (.nodes []) ∧
      (load hollowRecords ⟨1⟩ start).1 = .error (.store (.objectNotFound ⟨.boolean, ⟨1⟩⟩)) ∧
      start.snapshot.covers ⟨1⟩ = false ∧
      (load hollowRecords ⟨1⟩ start).2.snapshot.covers ⟨1⟩ = true :=
  ⟨by cbv, by cbv, by cbv, by rfl, by cbv⟩

end RuleTree
