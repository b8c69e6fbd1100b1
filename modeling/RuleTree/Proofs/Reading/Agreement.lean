import RuleTree.Proofs.Reading.Loading

/-!
# Both ways to read a tree agree

Where everything that a tree needs is stored, reading through a snapshot and reading node by node
give the same answers (`Reading.alike_children`, `Reading.alike_content`, `Reading.alike_object`).
The state of the first is a snapshot that stays faithful; the second keeps no state apart from the
number of its fetches.
-/

namespace RuleTree.Reading

open Step Snapshot Records

variable {records : Records} {reading : Reading}

/-- The node is stored as it is given, and all that its tree needs is stored. -/
structure Sound (records : Records) (node : Node) : Prop where
  stored : records.nodes.get? node.id = some node
  supplied : Supplied records node.id

theorem Sound.child {parent child : Node} (sound : Sound records parent)
    (listed : child.id ∈ records.childList parent.id)
    (stored : records.nodes.get? child.id = some child) : Sound records child where
  stored := stored
  supplied id path := sound.supplied id (.head listed path)

/-- The snapshot of a cached reading is faithful; a direct reading may be in any state. -/
def Faithfully (records : Records) (cached _direct : Reading) : Prop :=
  Faithful records cached.snapshot

theorem ensure_of_covered {id : NodeId} {ids : List NodeId}
    (covered : reading.snapshot.children.get? id = some ids) :
    ensure records id reading = (.ok (), { reading with opened := true }) := by
  refine bind_eq_ok.mpr ⟨(), _, rfl, bind_eq_ok.mpr ⟨_, _, rfl, ?_⟩⟩
  have covers : reading.snapshot.covers id = true := by
    simp [covers, Table.contains, covered]
  simp only [covers, if_true]
  rfl

theorem ensure_of_uncovered {id : NodeId} (uncovered : reading.snapshot.children.get? id = none) :
    ensure records id reading = load records id { reading with opened := true } := by
  have opened : markOpened reading = (.ok (), { reading with opened := true }) := rfl
  have now : snapshotNow { reading with opened := true } =
      (.ok reading.snapshot, { reading with opened := true }) := rfl
  have covers : reading.snapshot.covers id = false := by
    simp [covers, Table.contains, uncovered]
  unfold ensure
  rw [bind_of_ok opened, bind_of_ok now, covers]
  rfl

theorem ensure_spec {node : Node} (tidy : Tidy records) (sound : Sound records node)
    (faithful : Faithful records reading.snapshot) :
    ∃ after, ensure records node.id reading = (.ok (), after) ∧
      Faithful records after.snapshot ∧
        ∃ ids, after.snapshot.children.get? node.id = some ids := by
  cases covered : reading.snapshot.children.get? node.id with
  | some ids => exact ⟨_, ensure_of_covered covered, faithful, ids, covered⟩
  | none =>
      have faithful' : Faithful records { reading with opened := true }.snapshot := faithful
      rcases exists_load tidy faithful' sound.stored sound.supplied with ⟨after, done⟩
      rcases load_eq_ok tidy faithful' sound.stored done with ⟨faithful_after, known, _⟩
      exact ⟨after, (ensure_of_uncovered covered).trans done, faithful_after, known⟩

/-! ## Nodes -/

theorem loadedNodes_eq {snapshot : Snapshot} {ids : List NodeId}
    (faithful : Faithful records snapshot)
    (loaded : ∀ id ∈ ids, ∃ node, snapshot.nodes.get? id = some node) :
    loadedNodes snapshot ids = .ok (ids.filterMap records.nodes.get?) := by
  induction ids with
  | nil => rfl
  | cons id rest ih =>
      rcases loaded id (by simp) with ⟨node, found⟩
      rw [loadedNodes, found, ih fun other member => loaded other (by simp [member]),
        List.filterMap_cons_some (faithful.nodes found)]
      rfl

theorem directNodes_eq {ids : List NodeId}
    (stored : ∀ id ∈ ids, ∃ node, records.nodes.get? id = some node) (reading : Reading) :
    ∃ after, directNodes records ids reading = (.ok (ids.filterMap records.nodes.get?), after) := by
  induction ids generalizing reading with
  | nil => exact ⟨reading, rfl⟩
  | cons id rest ih =>
      rcases stored id (by simp) with ⟨node, found⟩
      have here : records.node id = .ok node := by simp [Records.node, found]
      rcases ih (fun other member => stored other (by simp [member]))
          { reading with fetches := reading.fetches + 1 } with ⟨after, others⟩
      refine ⟨after, bind_eq_ok.mpr ⟨node, _, fetch_eq_ok.mpr ⟨here, rfl⟩,
        bind_eq_ok.mpr ⟨_, after, others, ?_⟩⟩⟩
      rw [List.filterMap_cons_some found]
      rfl

/-- Without a snapshot the children of a stored node are read from the records. -/
theorem children_direct_eq (linked : Linked records) {node : Node}
    (stored : records.nodes.get? node.id = some node) (reading : Reading) :
    ∃ after, children records .direct node reading =
      (.ok ((records.orderedChildren node.id).filterMap records.nodes.get?), after) := by
  have listed := childrenOf_eq_ok.mpr ⟨⟨node, stored⟩, rfl⟩
  have present : ∀ id ∈ records.orderedChildren node.id,
      ∃ child, records.nodes.get? id = some child :=
    linked.present_children fun id member => mem_orderedChildren.mp member
  rcases directNodes_eq present { reading with fetches := reading.fetches + 1 } with ⟨after, nodes⟩
  exact ⟨after, bind_eq_ok.mpr ⟨_, _, fetch_eq_ok.mpr ⟨listed, rfl⟩, nodes⟩⟩

theorem content_direct_eq {node : Node} {ref : ContentRef} {found : Content}
    (wraps : node.content = some ref) (stored : records.objects.get? ref = some found)
    (reading : Reading) : content records .direct node reading =
      (.ok (some found), { reading with fetches := reading.fetches + 1 }) := by
  simp only [content, wraps, map_eq_pure_bind]
  rw [bind_of_ok (fetch_eq_ok.mpr ⟨object_eq_ok.mpr stored, rfl⟩)]
  rfl

/-- The children that a snapshot gives are those of the records. -/
theorem cachedChildren_of_ensured {node : Node} {middle : Reading} {ids : List NodeId}
    (ensured : ensure records node.id reading = (.ok (), middle))
    (faithful : Faithful records middle.snapshot)
    (known : middle.snapshot.children.get? node.id = some ids) :
    cachedChildren records node reading = (.ok (ids.filterMap records.nodes.get?), middle) := by
  have loaded := fun id member =>
    (faithful.children known).2 id (List.mem_cons_of_mem _ member)
  refine bind_eq_ok.mpr ⟨(), middle, ensured, bind_eq_ok.mpr ⟨_, _, rfl, ?_⟩⟩
  simp only [known, loadedNodes_eq faithful loaded]
  rfl

theorem alike_children {node : Node} (tidy : Tidy records) (sound : Sound records node) :
    Alike (Faithfully records)
      (fun nodes nodes' => nodes = nodes' ∧ ∀ child ∈ nodes, Sound records child)
      (children records .cached node) (children records .direct node) := by
  intro reading reading' faithful
  rcases ensure_spec tidy sound faithful with ⟨middle, ensured, faithful_middle, ids, known⟩
  rcases faithful_middle.children known with ⟨rfl, loaded⟩
  have cached : children records .cached node reading = (.ok _, middle) :=
    cachedChildren_of_ensured ensured faithful_middle known
  rcases children_direct_eq tidy.linked sound.stored reading' with ⟨after, direct⟩
  rw [cached, direct]
  refine ⟨faithful_middle, .ok ⟨rfl, fun child member => ?_⟩⟩
  rcases List.mem_filterMap.mp member with ⟨id, id_mem, found⟩
  have same := tidy.linked.keyed found
  subst same
  exact sound.child (mem_orderedChildren.mp id_mem) found

/-! ## Objects -/

theorem cachedObject_of_known {ref : ContentRef} {content : Content}
    (known : reading.snapshot.objects.get? ref = some content) :
    cachedObject records ref reading = (.ok content, { reading with opened := true }) := by
  refine bind_eq_ok.mpr ⟨(), _, rfl, bind_eq_ok.mpr ⟨_, _, rfl, ?_⟩⟩
  simp only [known]
  rfl

/-- An object that is not in the snapshot costs a fetch. -/
theorem cachedObject_of_unknown {ref : ContentRef}
    (unknown : reading.snapshot.objects.get? ref = none) :
    cachedObject records ref reading = (do
      let content ← fetch (records.object ref)
      modifySnapshot fun s => { s with objects := s.objects.insert ref content }
      pure content : ReadM Content) { reading with opened := true } := by
  have opened : markOpened reading = (.ok (), { reading with opened := true }) := rfl
  have now : snapshotNow { reading with opened := true } =
      (.ok reading.snapshot, { reading with opened := true }) := rfl
  unfold cachedObject
  rw [bind_of_ok opened, bind_of_ok now]
  simp only [unknown]

theorem cachedObject_of_stored {ref : ContentRef} {content : Content}
    (unknown : reading.snapshot.objects.get? ref = none)
    (stored : records.objects.get? ref = some content) :
    cachedObject records ref reading = (.ok content,
      { opened := true
        fetches := reading.fetches + 1
        snapshot :=
          { reading.snapshot with objects := reading.snapshot.objects.insert ref content } }) :=
  (cachedObject_of_unknown unknown).trans
    (bind_of_ok (fetch_eq_ok.mpr ⟨object_eq_ok.mpr stored, rfl⟩))

theorem cachedObject_of_absent {ref : ContentRef}
    (unknown : reading.snapshot.objects.get? ref = none)
    (absent : records.objects.get? ref = none) :
    cachedObject records ref reading = (.error (.store (.objectNotFound ref)),
      { reading with opened := true, fetches := reading.fetches + 1 }) := by
  have missing : records.object ref = .error (.objectNotFound ref) := by
    simp [Records.object, absent]
  exact (cachedObject_of_unknown unknown).trans (bind_of_error (fetch_of_error missing))

theorem alike_cachedObject {ref : ContentRef}
    (defined : ∀ content, records.objects.get? ref = some content → Defined records content) :
    Alike (Faithfully records) Eq (cachedObject records ref) (fetch (records.object ref)) := by
  intro reading reading' faithful
  have faithful : Faithful records reading.snapshot := faithful
  cases known : reading.snapshot.objects.get? ref with
  | some content =>
      have stored := object_eq_ok.mpr (faithful.objects known).1
      rw [cachedObject_of_known known, fetch_eq_ok.mpr ⟨stored, rfl⟩]
      exact ⟨faithful, .ok rfl⟩
  | none =>
      cases found : records.objects.get? ref with
      | none =>
          have missing : records.object ref = .error (.objectNotFound ref) := by
            simp [Records.object, found]
          rw [cachedObject_of_absent known found, fetch_of_error missing]
          exact ⟨faithful, .error _⟩
      | some content =>
          rw [cachedObject_of_stored known found,
            fetch_eq_ok.mpr ⟨object_eq_ok.mpr found, rfl⟩]
          refine ⟨⟨faithful.nodes, faithful.children, ?_⟩, .ok rfl⟩
          intro other content' known'
          rcases Table.get?_insert_cases known' with ⟨rfl, rfl⟩ | ⟨_, old⟩
          · exact ⟨found, defined _ found⟩
          · exact faithful.objects old

/-- Definitions may be asked for by any number; they are no uses of variables. -/
theorem alike_object (linked : Linked records) (definition : ObjectId) :
    Alike (Faithfully records) Eq (object records .cached ⟨.definition, definition⟩)
      (object records .direct ⟨.definition, definition⟩) := by
  apply alike_cachedObject
  intro content found other same
  have kind := (linked.addressed found).2
  subst same
  cases kind

theorem alike_content {node : Node} (tidy : Tidy records) (sound : Sound records node) :
    Alike (Faithfully records) Eq (content records .cached node)
      (content records .direct node) := by
  cases wraps : node.content with
  | none =>
      have cached : content records .cached node = pure none := by
        simp only [content, cachedContent, wraps]
      have direct : content records .direct node = pure none := by
        simp only [content, wraps]
      rw [cached, direct]
      exact .pure rfl
  | some ref =>
      intro reading reading' faithful
      rcases ensure_spec tidy sound faithful with ⟨middle, ensured, faithful_middle, _⟩
      rcases sound.supplied node.id .refl node ref sound.stored wraps with ⟨object, stored, defined⟩
      have alike : Alike (Faithfully records) Eq (some <$> cachedObject records ref)
          (some <$> fetch (records.object ref)) := by
        rw [map_eq_pure_bind, map_eq_pure_bind]
        refine (alike_cachedObject ?_).bind fun value value' same => .pure (congrArg some same)
        intro content found
        rw [stored] at found
        exact Option.some.inj found ▸ defined
      have cached : content records .cached node reading =
          (some <$> cachedObject records ref) middle := by
        simp only [content, cachedContent, wraps]
        exact bind_of_ok ensured
      have direct : content records .direct node = some <$> fetch (records.object ref) := by
        simp only [content, wraps]
      rw [cached, direct]
      exact alike middle reading' faithful_middle

end RuleTree.Reading
