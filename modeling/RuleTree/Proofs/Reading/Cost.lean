import RuleTree.Proofs.Evaluation.Renaming
import RuleTree.Proofs.Reading.Agreement
import RuleTree.Proofs.Reading.Interchange
import Mathlib.Data.Set.Card

/-!
# What a load costs

A load takes one fetch for the nodes of a tree, one for each kind of object that they wrap, and one
more if some variable names a definition from elsewhere (`Reading.load_cost`).  Afterwards the
snapshot is stocked with the tree (`Reading.load_stocked`): queries about nodes of the tree, objects
that it wraps and definitions that it names are answered from memory (`Query.foldl_ask_opened`).
-/

namespace RuleTree

open Step Records

variable {records : Records} {root : NodeId}

/-! ## Counting -/

namespace Records

/-- The kinds of the objects that the nodes of a tree wrap. -/
def kindsBelow (records : Records) (root : NodeId) : Set Kind :=
  {kind | ∃ ref, records.Referenced root ref ∧ ref.kind = kind}

/-- Some variable of a tree names a definition that no node of the tree wraps. -/
def NamesOutside (records : Records) (root : NodeId) : Prop :=
  ∃ definition, records.Names root definition ∧
    ¬records.Referenced root ⟨.definition, definition⟩

open Classical in
/-- One fetch for the nodes of a tree, one for each kind of object in it, and one for definitions
from elsewhere if it names any. -/
noncomputable def loadCost (records : Records) (root : NodeId) : Nat :=
  1 + (records.kindsBelow root).ncard + if records.NamesOutside root then 1 else 0

end Records

namespace Snapshot

theorem nodup_missing (snapshot : Snapshot) (refs : List ContentRef) :
    ((snapshot.missing refs).map Prod.fst).Nodup := by
  have distinct : Kind.all.Nodup := by decide
  unfold missing
  refine List.Nodup.sublist (List.filter_sublist.map Prod.fst) ?_
  rw [List.map_map]
  simpa [Function.comp_def] using distinct

theorem mem_missing_kinds {snapshot : Snapshot} {refs : List ContentRef} {kind : Kind} :
    kind ∈ (snapshot.missing refs).map Prod.fst ↔
      ∃ ref ∈ refs, ref.kind = kind ∧ snapshot.objects.get? ref = none := by
  constructor
  · intro member
    rcases List.mem_map.mp member with ⟨⟨kind', ids⟩, group_mem, rfl⟩
    have nonempty : ids ≠ [] := by
      have kept := (List.mem_filter.mp group_mem).2
      simpa using kept
    rcases List.exists_mem_of_ne_nil ids nonempty with ⟨id, id_mem⟩
    have grouped := (grouped_missing snapshot refs ⟨kind', id⟩).mp ⟨_, group_mem, rfl, id_mem⟩
    exact ⟨_, grouped.1, rfl, grouped.2⟩
  · rintro ⟨ref, member, rfl, absent⟩
    rcases (grouped_missing snapshot refs ref).mpr ⟨member, absent⟩ with ⟨group, group_mem, same, _⟩
    exact List.mem_map.mpr ⟨group, group_mem, same⟩

/-- There is one group for each kind among the missing objects. -/
theorem length_missing (snapshot : Snapshot) (refs : List ContentRef) :
    (snapshot.missing refs).length =
      {kind | ∃ ref ∈ refs, ref.kind = kind ∧ snapshot.objects.get? ref = none}.ncard := by
  have kinds : {kind | ∃ ref ∈ refs, ref.kind = kind ∧ snapshot.objects.get? ref = none} =
      (((snapshot.missing refs).map Prod.fst).toFinset : Set Kind) := by
    ext kind
    rw [Set.mem_ofPred_eq, ← mem_missing_kinds, Finset.mem_coe, List.mem_toFinset]
  rw [kinds, Set.ncard_coe_finset, List.toFinset_card_of_nodup (nodup_missing snapshot refs),
    List.length_map]

end Snapshot

namespace Reading

open Snapshot

variable {reading after : Reading}

theorem fetches_loadGroups {groups : List (Kind × List ObjectId)}
    (done : loadGroups records groups reading = (.ok (), after)) :
    after.fetches = reading.fetches + groups.length := by
  induction groups generalizing reading with
  | nil =>
      rcases pure_eq_ok.mp done with ⟨_, rfl⟩
      rfl
  | cons group rest ih =>
      rcases bind_eq_ok.mp done with ⟨pairs, first, fetched, done⟩
      rcases fetch_eq_ok.mp fetched with ⟨_, rfl⟩
      rcases bind_eq_ok.mp done with ⟨_, second, entered, done⟩
      rcases outcome_eq.mp entered with ⟨_, rfl⟩
      have count := ih done
      simp only [List.length_cons] at count ⊢
      omega

theorem fetches_loadObjects {refs : List ContentRef}
    (done : loadObjects records refs reading = (.ok (), after)) :
    after.fetches = reading.fetches + (reading.snapshot.missing refs).length := by
  rcases bind_eq_ok.mp done with ⟨snapshot, middle, now, done⟩
  rcases outcome_eq.mp now with ⟨same, rfl⟩
  rcases Except.ok.inj same with rfl
  exact fetches_loadGroups done

/-- The definitions that the objects of a tree name, once these are loaded and nothing else is. -/
theorem mem_namedDefinitions_loaded {middle : Snapshot} {refs : List ContentRef}
    (loaded : ∀ {ref content}, middle.objects.get? ref = some content ↔
      ref ∈ refs ∧ records.objects.get? ref = some content)
    (refs_iff : ∀ {ref}, ref ∈ refs ↔ records.Referenced root ref) {ref : ContentRef} :
    ref ∈ middle.namedDefinitions ↔ ref.kind = .definition ∧ records.Names root ref.id := by
  simp only [mem_namedDefinitions, loaded, refs_iff, Names]

/-- What the snapshot holds after the objects of a tree came into it, when it was empty. -/
theorem loaded_iff {before : Snapshot} {refs : List ContentRef} {middle : Snapshot}
    (spec : ObjectsLoaded records refs before middle)
    (nothing : ∀ ref, before.objects.get? ref = none) {ref : ContentRef} {content : Content} :
    middle.objects.get? ref = some content ↔
      ref ∈ refs ∧ records.objects.get? ref = some content := by
  have new {content : Content} (known : middle.objects.get? ref = some content) :
      ref ∈ refs ∧ records.objects.get? ref = some content := by
    rcases spec.only known with old | new
    · rw [nothing] at old
      cases old
    · exact new
  refine ⟨new, ?_⟩
  rintro ⟨member, found⟩
  rcases spec.loaded ref member with ⟨content', known⟩
  have found' := (new known).2
  rw [found] at found'
  exact found' ▸ known

/-- What it takes to load a tree into an empty snapshot. -/
theorem load_cost {node : Node} (tidy : Tidy records)
    (stored : records.nodes.get? node.id = some node) (empty : reading.snapshot = .empty)
    (done : load records node.id reading = (.ok (), after)) :
    after.fetches = reading.fetches + records.loadCost node.id := by
  rcases load_stages tidy.linked stored done with ⟨rest, middle, listing, contents, definitions⟩
  have refs_iff := fun {ref} => @mem_contents_iff records node rest tidy.linked stored listing ref
  generalize (node :: rest).filterMap Node.content = refs at contents refs_iff
  have nothing (ref : ContentRef) :
      (reading.snapshot.enter node.id (node :: rest)).objects.get? ref = none := by
    rw [empty, (faithful_enter tidy faithful_empty stored listing).2.1]
    rfl
  have loaded := fun {ref content} =>
    @loaded_iff records _ refs _ (loadObjects_spec contents) nothing ref content
  have absent_iff {ref : ContentRef} :
      middle.snapshot.objects.get? ref = none ↔ ¬records.Referenced node.id ref := by
    rw [← refs_iff]
    constructor
    · intro absent member
      rcases (loadObjects_spec contents).loaded ref member with ⟨content, known⟩
      rw [absent] at known
      cases known
    · intro outside
      cases known : middle.snapshot.objects.get? ref with
      | none => rfl
      | some content => exact absurd (loaded.mp known).1 outside
  have kinds : {kind | ∃ ref ∈ refs, ref.kind = kind ∧
      (reading.snapshot.enter node.id (node :: rest)).objects.get? ref = none} =
        records.kindsBelow node.id := by
    ext kind
    simp [nothing, refs_iff, kindsBelow]
  have outside : {kind | ∃ ref ∈ middle.snapshot.namedDefinitions,
      ref.kind = kind ∧ middle.snapshot.objects.get? ref = none} =
        {kind | kind = .definition ∧ records.NamesOutside node.id} := by
    ext kind
    simp only [Set.mem_ofPred_eq, mem_namedDefinitions_loaded loaded refs_iff, absent_iff]
    constructor
    · rintro ⟨⟨_, definition⟩, ⟨rfl, names⟩, rfl, unwrapped⟩
      exact ⟨rfl, definition, names, unwrapped⟩
    · rintro ⟨rfl, definition, names, unwrapped⟩
      exact ⟨⟨.definition, definition⟩, ⟨rfl, names⟩, rfl, unwrapped⟩
  have contents_cost := fetches_loadObjects contents
  have definitions_cost := fetches_loadObjects definitions
  rw [length_missing, kinds] at contents_cost
  dsimp only at contents_cost
  rw [length_missing, outside] at definitions_cost
  rw [definitions_cost, contents_cost, loadCost]
  by_cases names : records.NamesOutside node.id
  · have one : {kind : Kind | kind = .definition ∧ records.NamesOutside node.id} =
        {.definition} := by
      ext kind
      simp [names]
    rw [one, Set.ncard_singleton, if_pos names]
    omega
  · have none : {kind : Kind | kind = .definition ∧ records.NamesOutside node.id} = ∅ := by
      ext kind
      simp [names]
    rw [none, Set.ncard_empty, if_neg names]
    omega

/-! ## What a load saves -/

/-- All that can be asked about a tree is in the snapshot. -/
structure Stocked (records : Records) (root : NodeId) (snapshot : Snapshot) : Prop where
  faithful : Faithful records snapshot
  covered : ∀ {id}, records.Within root id → ∃ ids, snapshot.children.get? id = some ids
  objects : ∀ {ref}, records.Referenced root ref →
    ∃ content, snapshot.objects.get? ref = some content
  definitions : ∀ {definition}, records.Names root definition →
    ∃ content, snapshot.objects.get? ⟨.definition, definition⟩ = some content

theorem load_stocked {node : Node} (tidy : Tidy records)
    (faithful : Faithful records reading.snapshot)
    (stored : records.nodes.get? node.id = some node)
    (done : load records node.id reading = (.ok (), after)) :
    Stocked records node.id after.snapshot := by
  rcases load_eq_ok tidy faithful stored done with ⟨faithful_after, _, supplied⟩
  rcases load_stages tidy.linked stored done with ⟨rest, middle, listing, contents, definitions⟩
  have contents := loadObjects_spec contents
  have definitions := loadObjects_spec definitions
  have covered := (faithful_enter tidy faithful stored listing).2.2
  have referenced {ref : ContentRef} (wrapped : records.Referenced node.id ref) :
      ∃ content, middle.snapshot.objects.get? ref = some content :=
    contents.loaded ref ((mem_contents_iff tidy.linked stored listing).mpr wrapped)
  refine ⟨faithful_after, ?_, ?_, ?_⟩
  · intro id within
    rcases tidy.linked.within_stored ⟨node, stored⟩ within with ⟨other, found⟩
    rcases tidy.linked.keyed found with rfl
    rcases covered other ((listing.mem_whole_iff stored).mpr ⟨found, within⟩) with ⟨ids, known⟩
    exact ⟨ids, by rw [definitions.children, contents.children, known]⟩
  · intro ref wrapped
    rcases referenced wrapped with ⟨content, known⟩
    exact ⟨content, definitions.kept known⟩
  · rintro definition ⟨use, wrapped, names⟩
    rcases referenced wrapped with ⟨content, known⟩
    have same := (faithful_after.objects (definitions.kept known)).1
    rw [names] at same
    rcases Option.some.inj same with rfl
    exact definitions.loaded _ (mem_namedDefinitions.mpr ⟨rfl, use, known⟩)

/-- The node lies in a tree and is given as it is stored. -/
structure Inside (records : Records) (root : NodeId) (node : Node) : Prop where
  within : records.Within root node.id
  stored : records.nodes.get? node.id = some node

/-- The snapshot is stocked with a tree, and so many fetches were made. -/
def Opened (records : Records) (root : NodeId) (fetches : Nat) (reading : Reading) : Prop :=
  Stocked records root reading.snapshot ∧ reading.fetches = fetches

variable {fetches : Nat} {node : Node}

/-- The steps from some states open the tree before they ask for a node of it. -/
def Ensures (records : Records) (root : NodeId) (fetches : Nat) (node : Node)
    (before : Reading → Prop) : Prop :=
  ∀ reading, before reading → ∃ after, ensure records node.id reading = (.ok (), after) ∧
    Opened records root fetches after

variable {before : Reading → Prop}

theorem Inside.ensures (inside : Inside records root node) :
    Ensures records root fetches node (Opened records root fetches) := by
  rintro reading ⟨stocked, count⟩
  rcases stocked.covered inside.within with ⟨ids, known⟩
  exact ⟨_, ensure_of_covered known, stocked, count⟩

theorem Ensures.leads_children (ensures : Ensures records root fetches node before)
    (linked : Linked records) (inside : Inside records root node) :
    Leads before (Opened records root fetches)
      (fun nodes => ∀ child ∈ nodes, Inside records root child)
      (children records .cached node) := by
  refine .of_ok fun reading here => ?_
  rcases ensures reading here with ⟨after, ensured, stocked, count⟩
  rcases stocked.covered inside.within with ⟨ids, known⟩
  refine ⟨_, after, cachedChildren_of_ensured ensured stocked.faithful known, ⟨stocked, count⟩, ?_⟩
  intro child member
  rcases List.mem_filterMap.mp member with ⟨id, id_mem, found⟩
  rcases linked.keyed found with rfl
  rw [(stocked.faithful.children known).1] at id_mem
  exact ⟨inside.within.tail (mem_orderedChildren.mp id_mem), found⟩

theorem leads_object {ref : ContentRef}
    (known : ∀ snapshot, Stocked records root snapshot →
      ∃ content, snapshot.objects.get? ref = some content) :
    Leads (Opened records root fetches) (Opened records root fetches)
      (fun content => records.objects.get? ref = some content)
      (object records .cached ref) := by
  refine .of_ok fun reading opened => ?_
  rcases opened with ⟨stocked, count⟩
  rcases known _ stocked with ⟨content, here⟩
  exact ⟨content, _, cachedObject_of_known here, ⟨stocked, count⟩,
    (stocked.faithful.objects here).1⟩

theorem leads_definition {definition : ObjectId} (names : records.Names root definition) :
    Leads (Opened records root fetches) (Opened records root fetches)
      (fun content => records.objects.get? ⟨.definition, definition⟩ = some content)
      (object records .cached ⟨.definition, definition⟩) :=
  leads_object fun _ stocked => stocked.definitions names

/-- What a variable in the tree names is a definition that the tree names. -/
theorem Ensures.leads_content {ref : ContentRef}
    (ensures : Ensures records root fetches node before)
    (inside : Inside records root node) (wraps : node.content = some ref) :
    Leads before (Opened records root fetches)
      (fun content => ∀ definition, content = some (.use definition) →
        records.Names root definition)
      (content records .cached node) := by
  have wrapped : records.Referenced root ref :=
    ⟨_, node, inside.within, inside.stored, wraps⟩
  have read : content records .cached node =
      (ensure records node.id >>= fun _ => some <$> cachedObject records ref) := by
    simp only [content, cachedContent, wraps]
  rw [read]
  refine Leads.bind (.of_ok fun reading here => ?_) fun _ (_ : True) => ?_
  · rcases ensures reading here with ⟨after, ensured, opened⟩
    exact ⟨(), after, ensured, opened, trivial⟩
  · rw [map_eq_pure_bind]
    refine (leads_object fun _ stocked => stocked.objects wrapped).bind fun content stored => ?_
    refine .pure fun definition same => ?_
    rcases Option.some.inj same with rfl
    exact ⟨ref, wrapped, stored⟩

theorem content_of_block (block : node.content = none) :
    content records .cached node = pure none := by
  simp only [content, cachedContent, block]

theorem Inside.leads_content (inside : Inside records root node) :
    Leads (Opened records root fetches) (Opened records root fetches)
      (fun content => ∀ definition, content = some (.use definition) →
        records.Names root definition)
      (content records .cached node) := by
  cases wraps : node.content with
  | none =>
      rw [content_of_block wraps]
      exact .pure (by simp)
  | some ref => exact inside.ensures.leads_content inside wraps

theorem Inside.leads_children (inside : Inside records root node) (linked : Linked records) :
    Leads (Opened records root fetches) (Opened records root fetches)
      (fun nodes => ∀ child ∈ nodes, Inside records root child)
      (children records .cached node) :=
  inside.ensures.leads_children linked inside

theorem leads_node {id : NodeId} (within : records.Within root id) :
    Leads (Opened records root fetches) (Opened records root fetches) (fun _ => True)
      (Reading.node records .cached id) := by
  refine .of_ok fun reading opened => ?_
  rcases opened with ⟨stocked, count⟩
  rcases stocked.covered within with ⟨ids, known⟩
  rcases (stocked.faithful.children known).2 id (List.mem_cons_self ..) with ⟨node, found⟩
  refine ⟨node, { reading with opened := true }, ?_, ⟨stocked, count⟩, trivial⟩
  refine bind_eq_ok.mpr ⟨(), _, ensure_of_covered known, bind_eq_ok.mpr ⟨_, _, rfl, ?_⟩⟩
  simp only [found]
  rfl

/-! ## The first query -/

theorem Sound.inside (sound : Sound records node) : Inside records node.id node :=
  ⟨.refl, sound.stored⟩

/-- When nothing was read yet, the first query loads the tree. -/
theorem Sound.ensures (sound : Sound records node) (tidy : Tidy records) :
    Ensures records node.id (records.loadCost node.id) node (· = start) := by
  rintro _ rfl
  have faithful : Faithful records { start with opened := true }.snapshot := faithful_empty
  rcases exists_load tidy faithful sound.stored sound.supplied with ⟨after, done⟩
  have cost := load_cost tidy sound.stored rfl done
  refine ⟨after, (ensure_of_uncovered rfl).trans done,
    load_stocked tidy faithful sound.stored done, ?_⟩
  rw [cost]
  exact Nat.zero_add _

theorem keeps_loadGroups (groups : List (Kind × List ObjectId)) :
    Keeps Reading.opened (loadGroups records groups) := by
  induction groups with
  | nil => exact .pure ()
  | cons group rest ih =>
      refine Keeps.bind (fun _ => rfl) fun objects => ?_
      exact Keeps.bind (fun _ => rfl) fun _ => ih

theorem keeps_load (root : NodeId) : Keeps Reading.opened (load records root) := by
  refine Keeps.bind (fun _ => rfl) fun nodes => Keeps.bind (fun _ => rfl) fun _ => ?_
  refine Keeps.bind (Keeps.bind (fun _ => rfl) fun _ => keeps_loadGroups _) fun _ => ?_
  exact Keeps.bind (fun _ => rfl) fun _ =>
    Keeps.bind (fun _ => rfl) fun _ => keeps_loadGroups _

/-- When nothing was read yet, the first query does what it does once the tree is loaded. -/
theorem Sound.first_query (sound : Sound records node) (tidy : Tidy records) :
    ∃ loaded, Opened records node.id (records.loadCost node.id) loaded ∧
      ensure records node.id start = ensure records node.id loaded := by
  rcases sound.ensures tidy start rfl with ⟨loaded, ensured, opened⟩
  refine ⟨loaded, opened, ?_⟩
  rcases opened.1.covered .refl with ⟨ids, known⟩
  have marked : loaded.opened = true := by
    have kept : (load records node.id { start with opened := true }).2.opened = true :=
      keeps_load node.id _
    rw [← ensure_of_uncovered rfl, ensured] at kept
    exact kept
  rw [ensured, ensure_of_covered known, ← marked]

theorem children_of_ensure {reading reading' : Reading}
    (same : ensure records node.id reading = ensure records node.id reading') :
    children records .cached node reading = children records .cached node reading' :=
  bind_of_same same

theorem content_of_ensure {reading reading' : Reading} {ref : ContentRef}
    (wraps : node.content = some ref)
    (same : ensure records node.id reading = ensure records node.id reading') :
    content records .cached node reading = content records .cached node reading' := by
  simp only [content, cachedContent, wraps]
  exact bind_of_same same

/-- What is asked about a tree that was loaded is answered from memory. -/
theorem interchangeable_opened (linked : Linked records) :
    Interchangeable records .cached records .cached
      (fun reading reading' => reading = reading' ∧ Opened records root fetches reading)
      (fun depth depth' node => depth = depth' ∧ Inside records root node)
      (records.Names root) where
  ends := by
    rintro depth depth' node ⟨rfl, _⟩
    rfl
  content := by
    rintro depth depth' node ⟨_, inside⟩
    exact inside.leads_content.alike
  children := by
    rintro depth depth' node ⟨same, inside⟩
    refine (inside.leads_children linked).alike.imp ?_
    rintro nodes nodes' ⟨agree, below⟩
    exact ⟨agree, fun child member => ⟨Nat.succ.inj same, below child member⟩⟩
  definition names := (leads_definition names).alike.imp fun _ _ agree => agree.1

end Reading

/-! ## Queries -/

open Reading

/-- What a snapshot can be asked. -/
inductive Query where
  | children (node : Node)
  | content (node : Node)
  | node (id : NodeId)
  | object (ref : ContentRef)

namespace Query

/-- Asks the snapshot, which may be filled by that, and goes on whatever the answer is. -/
def ask (records : Records) (reading : Reading) : Query → Reading
  | .children asked => (Reading.children records .cached asked reading).2
  | .content asked => (Reading.content records .cached asked reading).2
  | .node id => (Reading.node records .cached id reading).2
  | .object ref => (Reading.object records .cached ref reading).2

/-- The query is about a node of a tree, given as it is stored, about an object that the tree wraps
or about a definition that it names. -/
inductive About (records : Records) (root : NodeId) : Query → Prop where
  | children {asked : Node} : Inside records root asked → About records root (.children asked)
  | content {asked : Node} : Inside records root asked → About records root (.content asked)
  | node {id : NodeId} : records.Within root id → About records root (.node id)
  | object {ref : ContentRef} : records.Referenced root ref → About records root (.object ref)
  | definition {definition : ObjectId} : records.Names root definition →
      About records root (.object ⟨.definition, definition⟩)

theorem ask_opened (linked : Linked records) {query : Query} (about : query.About records root)
    {fetches : Nat} {reading : Reading} (opened : Opened records root fetches reading) :
    Opened records root fetches (query.ask records reading) := by
  cases about with
  | children inside => exact (inside.leads_children linked reading opened).1
  | content inside => exact (inside.leads_content reading opened).1
  | node within => exact (leads_node within reading opened).1
  | object wrapped =>
      exact (leads_object (fun _ stocked => stocked.objects wrapped) reading opened).1
  | definition names => exact (leads_definition names reading opened).1

/-- Queries about a tree that was loaded cost nothing, however many there are. -/
theorem foldl_ask_opened (linked : Linked records) {queries : List Query}
    (about : ∀ query ∈ queries, query.About records root) {fetches : Nat} {reading : Reading}
    (opened : Opened records root fetches reading) :
    Opened records root fetches (queries.foldl (fun reading query => query.ask records reading)
      reading) := by
  induction queries generalizing reading with
  | nil => exact opened
  | cons query rest ih =>
      exact ih (fun other member => about other (List.mem_cons_of_mem _ member))
        (ask_opened linked (about query (List.mem_cons_self ..)) opened)

end Query

end RuleTree
