import RuleTree.Proofs.Outcome
import RuleTree.Proofs.Reading.Entering
import RuleTree.Tree.Reading

/-!
# Loading a subtree

Loading succeeds exactly when the objects of the subtree and the definitions that its variables name
are stored, and then the snapshot is faithful and covers the subtree (`Reading.load_ok` and
`Reading.load_eq_ok`).  A node whose children are known is not loaded again, so that a snapshot that
covers a tree is all that reading the tree needs.
-/

namespace RuleTree

open Step Records

namespace Records

variable {records : Records}

theorem objectsOf_cons_eq_ok {kind : Kind} {id : ObjectId} {rest : List ObjectId}
    {pairs : List (ObjectId × Content)} :
    records.objectsOf kind (id :: rest) = .ok pairs ↔
      ∃ content others, records.objects.get? ⟨kind, id⟩ = some content ∧
        records.objectsOf kind rest = .ok others ∧ (id, content) :: others = pairs := by
  constructor
  · intro done
    rcases Answer.bind_eq_ok.mp done with ⟨content, found, done⟩
    rcases Answer.bind_eq_ok.mp done with ⟨others, rest_found, done⟩
    exact ⟨content, others, object_eq_ok.mp found, rest_found, Except.ok.inj done⟩
  · rintro ⟨content, others, found, rest_found, rfl⟩
    exact Answer.bind_eq_ok.mpr ⟨content, object_eq_ok.mpr found,
      Answer.bind_eq_ok.mpr ⟨others, rest_found, rfl⟩⟩

theorem exists_objectsOf {kind : Kind} {ids : List ObjectId} :
    (∃ pairs, records.objectsOf kind ids = .ok pairs) ↔
      ∀ id ∈ ids, ∃ content, records.objects.get? ⟨kind, id⟩ = some content := by
  induction ids with
  | nil => simp [objectsOf]
  | cons id rest ih =>
      constructor
      · rintro ⟨pairs, done⟩ other member
        rcases objectsOf_cons_eq_ok.mp done with ⟨content, others, found, rest_found, _⟩
        rcases List.mem_cons.mp member with rfl | later
        · exact ⟨content, found⟩
        · exact ih.mp ⟨others, rest_found⟩ other later
      · intro stored
        rcases stored id (by simp) with ⟨content, found⟩
        rcases ih.mpr fun other later => stored other (by simp [later]) with ⟨others, rest_found⟩
        exact ⟨_, objectsOf_cons_eq_ok.mpr ⟨content, others, found, rest_found, rfl⟩⟩

end Records

namespace Snapshot

variable {records : Records} {before after : Snapshot}

/-- The address stands in one of the groups. -/
def Grouped (groups : List (Kind × List ObjectId)) (ref : ContentRef) : Prop :=
  ∃ group ∈ groups, group.1 = ref.kind ∧ ref.id ∈ group.2

theorem grouped_missing (snapshot : Snapshot) (refs : List ContentRef) (ref : ContentRef) :
    Grouped (snapshot.missing refs) ref ↔ ref ∈ refs ∧ snapshot.objects.get? ref = none := by
  have wanted : (ref ∈ refs.filter fun ref => !snapshot.objects.contains ref) ↔
      ref ∈ refs ∧ snapshot.objects.get? ref = none := by
    simp [Table.contains]
  rw [← wanted]
  unfold Grouped missing
  constructor
  · rintro ⟨group, member, kind, listed⟩
    rcases List.mem_filter.mp member with ⟨grouped, _⟩
    rcases List.mem_map.mp grouped with ⟨kind', _, rfl⟩
    simp only at kind listed
    subst kind
    rcases List.mem_map.mp (List.mem_eraseDups.mp listed) with ⟨other, other_mem, same⟩
    rcases List.mem_filter.mp other_mem with ⟨other_mem, same_kind⟩
    have same_ref : other = ref := by
      rcases other with ⟨_, _⟩
      rcases ref with ⟨_, _⟩
      simp only [decide_eq_true_eq] at same same_kind
      subst same same_kind
      rfl
    exact same_ref ▸ other_mem
  · intro member
    have listed : ref.id ∈ (((refs.filter fun ref => !snapshot.objects.contains ref).filter
        fun other => other.kind = ref.kind).map ContentRef.id).eraseDups := by
      refine List.mem_eraseDups.mpr (List.mem_map.mpr ⟨ref, ?_, rfl⟩)
      exact List.mem_filter.mpr ⟨member, by simp⟩
    refine ⟨_, List.mem_filter.mpr ⟨List.mem_map.mpr ⟨ref.kind, ref.kind.mem_all, rfl⟩, ?_⟩, rfl,
      listed⟩
    simpa using List.ne_nil_of_mem listed

theorem get?_enterObjects {kind : Kind} {ids : List ObjectId}
    {pairs : List (ObjectId × Content)} (found : records.objectsOf kind ids = .ok pairs)
    (before : Snapshot) (ref : ContentRef) : (before.enterObjects kind pairs).objects.get? ref =
      if kind = ref.kind ∧ ref.id ∈ ids then records.objects.get? ref
      else before.objects.get? ref := by
  unfold enterObjects
  simp only
  generalize before.objects = table
  induction ids generalizing pairs table with
  | nil =>
      rcases Except.ok.inj found with rfl
      simp
  | cons id rest ih =>
      rcases objectsOf_cons_eq_ok.mp found with ⟨content, others, stored, rest_found, rfl⟩
      rw [List.foldl_cons, ih rest_found, Table.get?_insert]
      by_cases later : kind = ref.kind ∧ ref.id ∈ rest
      · simp [later]
      · by_cases here : (⟨kind, id⟩ : ContentRef) = ref
        · subst here
          simp [stored]
        · have differ : ¬(kind = ref.kind ∧ ref.id ∈ id :: rest) := by
            rintro ⟨rfl, member⟩
            rcases List.mem_cons.mp member with same | member
            · exact here (by rw [← same])
            · exact later ⟨rfl, member⟩
          rw [if_neg later, if_neg here, if_neg differ]

theorem mem_namedDefinitions {snapshot : Snapshot} {ref : ContentRef} :
    ref ∈ snapshot.namedDefinitions ↔ ref.kind = .definition ∧
      ∃ user, snapshot.objects.get? user = some (.use ref.id) := by
  unfold namedDefinitions Table.values
  rw [List.mem_filterMap]
  constructor
  · rintro ⟨content, member, named⟩
    rcases List.mem_map.mp member with ⟨⟨user, content'⟩, entry, rfl⟩
    split at named
    · rename_i definition same
      rcases Option.some.inj named with rfl
      rw [Table.mem_entries_iff] at entry
      exact ⟨rfl, user, entry.trans (congrArg some same)⟩
    · cases named
  · rintro ⟨kind, user, found⟩
    refine ⟨.use ref.id, List.mem_map.mpr ⟨(user, .use ref.id), ?_, rfl⟩, ?_⟩
    · exact (Table.mem_entries_iff _ _ _).mpr found
    · rcases ref with ⟨_, _⟩
      simp only at kind
      rw [kind]

/-- Some objects were loaded, and nothing else changed. -/
structure ObjectsLoaded (records : Records) (refs : List ContentRef)
    (before after : Snapshot) : Prop where
  nodes : after.nodes = before.nodes
  children : after.children = before.children
  loaded : ∀ ref ∈ refs, ∃ content, after.objects.get? ref = some content
  kept : ∀ {ref content}, before.objects.get? ref = some content →
    after.objects.get? ref = some content
  only : ∀ {ref content}, after.objects.get? ref = some content →
    before.objects.get? ref = some content ∨
      ref ∈ refs ∧ records.objects.get? ref = some content

end Snapshot

namespace Reading

open Snapshot

variable {records : Records} {reading after : Reading}

theorem fetch_eq_ok {α : Type} {answer : Except StoreError α} {result : α} :
    fetch answer reading = (.ok result, after) ↔
      answer = .ok result ∧ { reading with fetches := reading.fetches + 1 } = after := by
  unfold fetch
  rw [outcome_eq, Answer.mapError_eq_ok]

theorem fetch_of_error {α : Type} {answer : Except StoreError α} {cause : StoreError}
    (failed : answer = .error cause) : fetch answer reading =
      (.error (.store cause), { reading with fetches := reading.fetches + 1 }) := by
  rw [failed]
  rfl

theorem loadGroups_spec {groups : List (Kind × List ObjectId)}
    (done : loadGroups records groups reading = (.ok (), after)) :
    after.snapshot.nodes = reading.snapshot.nodes ∧
      after.snapshot.children = reading.snapshot.children ∧
        ∀ ref, (Grouped groups ref → (∃ content, records.objects.get? ref = some content) ∧
            after.snapshot.objects.get? ref = records.objects.get? ref) ∧
          (¬Grouped groups ref →
            after.snapshot.objects.get? ref = reading.snapshot.objects.get? ref) := by
  induction groups generalizing reading with
  | nil =>
      rcases pure_eq_ok.mp done with ⟨_, rfl⟩
      refine ⟨rfl, rfl, fun ref => ⟨?_, fun _ => rfl⟩⟩
      rintro ⟨_, member, _⟩
      cases member
  | cons group rest ih =>
      rcases group with ⟨kind, ids⟩
      rcases bind_eq_ok.mp done with ⟨pairs, first, fetched, done⟩
      rcases fetch_eq_ok.mp fetched with ⟨found, rfl⟩
      rcases bind_eq_ok.mp done with ⟨_, second, entered, done⟩
      rcases outcome_eq.mp entered with ⟨_, rfl⟩
      rcases ih done with ⟨nodes, children, objects⟩
      refine ⟨nodes, children, fun ref => ?_⟩
      rcases objects ref with ⟨grouped, other⟩
      have here := get?_enterObjects found reading.snapshot ref
      by_cases later : Grouped rest ref
      · refine ⟨fun _ => grouped later, fun absent => ?_⟩
        rcases later with ⟨group, member, fits⟩
        exact absurd ⟨group, List.mem_cons_of_mem _ member, fits⟩ absent
      · rw [other later]
        show ((∃ group ∈ (kind, ids) :: rest, group.1 = ref.kind ∧ ref.id ∈ group.2) → _) ∧ _
        rw [here]
        by_cases fits : kind = ref.kind ∧ ref.id ∈ ids
        · rw [if_pos fits]
          refine ⟨fun _ => ⟨?_, rfl⟩, fun absent => absurd ⟨_, List.mem_cons_self .., fits⟩ absent⟩
          rcases fits with ⟨same, member⟩
          subst same
          exact exists_objectsOf.mp ⟨pairs, found⟩ ref.id member
        · rw [if_neg fits]
          refine ⟨?_, fun _ => rfl⟩
          rintro ⟨group, member, fits'⟩
          rcases List.mem_cons.mp member with rfl | member
          · exact absurd fits' fits
          · exact absurd ⟨group, member, fits'⟩ later

theorem exists_loadGroups {groups : List (Kind × List ObjectId)}
    (stored : ∀ ref, Grouped groups ref → ∃ content, records.objects.get? ref = some content)
    (reading : Reading) : ∃ after, loadGroups records groups reading = (.ok (), after) := by
  induction groups generalizing reading with
  | nil => exact ⟨reading, rfl⟩
  | cons group rest ih =>
      rcases group with ⟨kind, ids⟩
      rcases exists_objectsOf.mpr fun id member =>
          stored ⟨kind, id⟩ ⟨(kind, ids), List.mem_cons_self .., rfl, member⟩ with ⟨pairs, found⟩
      rcases ih
          (fun ref ⟨group, member, fits⟩ => stored ref ⟨group, List.mem_cons_of_mem _ member, fits⟩)
          ⟨reading.snapshot.enterObjects kind pairs, reading.opened, reading.fetches + 1⟩ with
        ⟨after, done⟩
      exact ⟨after, bind_eq_ok.mpr ⟨pairs, _, fetch_eq_ok.mpr ⟨found, rfl⟩,
        bind_eq_ok.mpr ⟨(), _, rfl, done⟩⟩⟩

theorem loadObjects_spec {refs : List ContentRef}
    (done : loadObjects records refs reading = (.ok (), after)) :
    ObjectsLoaded records refs reading.snapshot after.snapshot := by
  rcases bind_eq_ok.mp done with ⟨snapshot, middle, now, done⟩
  rcases outcome_eq.mp now with ⟨same, rfl⟩
  rcases Except.ok.inj same with rfl
  rcases loadGroups_spec done with ⟨nodes, children, objects⟩
  refine ⟨nodes, children, ?_, ?_, ?_⟩
  · intro ref member
    cases known : reading.snapshot.objects.get? ref with
    | none =>
        have grouped := (grouped_missing reading.snapshot refs ref).mpr ⟨member, known⟩
        rcases (objects ref).1 grouped with ⟨⟨content, stored⟩, same⟩
        exact ⟨content, same.trans stored⟩
    | some content =>
        refine ⟨content, ((objects ref).2 fun grouped => ?_).trans known⟩
        have absent := ((grouped_missing _ _ _).mp grouped).2
        rw [known] at absent
        cases absent
  · intro ref content known
    refine ((objects ref).2 fun grouped => ?_).trans known
    have absent := ((grouped_missing _ _ _).mp grouped).2
    rw [known] at absent
    cases absent
  · intro ref content known
    by_cases grouped : Grouped (reading.snapshot.missing refs) ref
    · rw [((objects ref).1 grouped).2] at known
      exact .inr ⟨((grouped_missing _ _ _).mp grouped).1, known⟩
    · rw [(objects ref).2 grouped] at known
      exact .inl known

theorem exists_loadObjects {refs : List ContentRef}
    (stored : ∀ ref ∈ refs, ∃ content, records.objects.get? ref = some content)
    (reading : Reading) : ∃ after, loadObjects records refs reading = (.ok (), after) := by
  rcases exists_loadGroups
      (fun ref grouped => stored ref ((grouped_missing reading.snapshot refs ref).mp grouped).1)
      reading with ⟨after, done⟩
  exact ⟨after, bind_eq_ok.mpr ⟨_, _, rfl, done⟩⟩

/-! ## Subtrees -/

/-- The objects that a tree needs are stored: those of its nodes and the definitions that they
name. -/
def Supplied (records : Records) (root : NodeId) : Prop :=
  ∀ id, Relation.ReflTransGen records.ChildOf root id → ∀ node ref,
    records.nodes.get? id = some node → node.content = some ref →
      ∃ content, records.objects.get? ref = some content ∧ Defined records content

/-- The stages of a load: the nodes are entered, then the objects of the nodes, and then the
definitions that the variables among them name. -/
theorem load_stages {root : Node} (linked : Linked records)
    (stored : records.nodes.get? root.id = some root)
    (done : load records root.id reading = (.ok (), after)) :
    ∃ rest middle, Listing records root.id rest ∧
      loadObjects records ((root :: rest).filterMap Node.content)
        ⟨reading.snapshot.enter root.id (root :: rest), reading.opened, reading.fetches + 1⟩ =
          (.ok (), middle) ∧
      loadObjects records middle.snapshot.namedDefinitions middle = (.ok (), after) := by
  rcases linked.subtree_eq stored with ⟨rest, subtree, listing⟩
  rcases bind_eq_ok.mp done with ⟨nodes, first, fetched, done⟩
  rcases fetch_eq_ok.mp fetched with ⟨found, rfl⟩
  rw [subtree] at found
  rcases Except.ok.inj found with rfl
  rcases bind_eq_ok.mp done with ⟨_, second, entered, done⟩
  rcases outcome_eq.mp entered with ⟨_, rfl⟩
  rcases bind_eq_ok.mp done with ⟨_, middle, contents, done⟩
  rcases bind_eq_ok.mp done with ⟨snapshot, fourth, now, done⟩
  rcases outcome_eq.mp now with ⟨same, rfl⟩
  rcases Except.ok.inj same with rfl
  exact ⟨rest, middle, listing, contents, done⟩

/-- What a successful load leaves, and that the tree was supplied. -/
theorem load_eq_ok {root : Node} (tidy : Tidy records)
    (faithful : Faithful records reading.snapshot)
    (stored : records.nodes.get? root.id = some root)
    (done : load records root.id reading = (.ok (), after)) :
    Faithful records after.snapshot ∧ (∃ ids, after.snapshot.children.get? root.id = some ids) ∧
      Supplied records root.id := by
  rcases load_stages tidy.linked stored done with ⟨rest, third, listing, contents, done⟩
  have contents := loadObjects_spec contents
  have definitions := loadObjects_spec done
  rcases faithful_enter tidy faithful stored listing with ⟨faithful_entered, objects_eq, covered⟩
  simp only at contents
  have known_stored {ref : ContentRef} {content : Content}
      (known : third.snapshot.objects.get? ref = some content) :
      records.objects.get? ref = some content := by
    rcases contents.only known with old | ⟨_, found⟩
    · exact (faithful_entered.objects old).1
    · exact found
  have all_stored {ref : ContentRef} {content : Content}
      (known : after.snapshot.objects.get? ref = some content) :
      records.objects.get? ref = some content := by
    rcases definitions.only known with old | ⟨_, found⟩
    · exact known_stored old
    · exact found
  have defined {ref : ContentRef} {content : Content}
      (known : third.snapshot.objects.get? ref = some content) : Defined records content := by
    rintro definition rfl
    rcases definitions.loaded ⟨.definition, definition⟩
        (mem_namedDefinitions.mpr ⟨rfl, ref, known⟩) with ⟨object, loaded⟩
    exact ⟨object, all_stored loaded⟩
  refine ⟨⟨?_, ?_, ?_⟩, ?_, ?_⟩
  · intro id node known
    rw [definitions.nodes, contents.nodes] at known
    exact faithful_entered.nodes known
  · intro id ids known
    rw [definitions.children, contents.children] at known
    rw [definitions.nodes, contents.nodes]
    exact faithful_entered.children known
  · intro ref content known
    refine ⟨all_stored known, ?_⟩
    rcases definitions.only known with old | ⟨member, found⟩
    · exact defined old
    · -- A definition is no use of a variable.
      have kind := (tidy.linked.addressed found).2
      rw [(mem_namedDefinitions.mp member).1] at kind
      rintro definition rfl
      cases kind
  · rcases covered root (List.mem_cons_self ..) with ⟨ids, known⟩
    exact ⟨ids, by rw [definitions.children, contents.children, known]⟩
  · intro id path node ref found wraps
    rcases tidy.linked.keyed found with rfl
    have listed : node ∈ root :: rest := (listing.mem_whole_iff stored).mpr ⟨found, path⟩
    rcases contents.loaded ref (List.mem_filterMap.mpr ⟨node, listed, wraps⟩) with ⟨content, loaded⟩
    exact ⟨content, known_stored loaded, defined loaded⟩

theorem exists_load {root : Node} (tidy : Tidy records)
    (faithful : Faithful records reading.snapshot)
    (stored : records.nodes.get? root.id = some root) (supplied : Supplied records root.id) :
    ∃ after, load records root.id reading = (.ok (), after) := by
  rcases tidy.linked.subtree_eq stored with ⟨rest, subtree, listing⟩
  rcases faithful_enter tidy faithful stored listing with ⟨faithful_entered, _, _⟩
  have needed : ∀ ref ∈ (root :: rest).filterMap Node.content,
      ∃ content, records.objects.get? ref = some content ∧ Defined records content := by
    intro ref member
    rcases List.mem_filterMap.mp member with ⟨node, node_mem, wraps⟩
    rcases (listing.mem_whole_iff stored).mp node_mem with ⟨found, within⟩
    exact supplied _ within _ ref found wraps
  rcases exists_loadObjects
      (fun ref member => (needed ref member).imp fun _ both => both.1)
      ⟨reading.snapshot.enter root.id (root :: rest), reading.opened, reading.fetches + 1⟩ with
    ⟨third, contents⟩
  have loaded := loadObjects_spec contents
  have named : ∀ ref ∈ third.snapshot.namedDefinitions,
      ∃ content, records.objects.get? ref = some content := by
    rintro ⟨_, definition⟩ member
    rcases mem_namedDefinitions.mp member with ⟨rfl, user, known⟩
    rcases loaded.only known with old | ⟨member, found⟩
    · exact (faithful_entered.objects old).2 _ rfl
    · rcases needed user member with ⟨content, stored_content, defined⟩
      rw [found] at stored_content
      exact defined _ (Option.some.inj stored_content).symm
  rcases exists_loadObjects named third with ⟨after, definitions⟩
  exact ⟨after, bind_eq_ok.mpr ⟨_, _, fetch_eq_ok.mpr ⟨subtree, rfl⟩,
    bind_eq_ok.mpr ⟨(), _, rfl, bind_eq_ok.mpr ⟨(), third, contents,
      bind_eq_ok.mpr ⟨_, _, rfl, definitions⟩⟩⟩⟩⟩

end Reading

end RuleTree
