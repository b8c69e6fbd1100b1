import RuleTree.Proofs.Evaluation.Simulation
import RuleTree.Proofs.Reading.Failures
import RuleTree.Proofs.Reading.Interchange

/-!
# Replicas

A replica of records has the same nodes and objects, but it may list the children of a node in
another order and may have given out other numbers.  In tidy records the positions put the children
into one order, so nothing that reads the store sees the difference: the readers of the store answer
the same (`Records.Replica.subtree_eq`), and so do evaluations and documents, even for trees that
lack objects and whether they are read through a snapshot or node by node
(`Records.Replica.interpret_eq`, `Records.Replica.build_eq`).
-/

namespace RuleTree

open Step Records Snapshot

namespace Records

variable {before after : Records}

theorem mapM_congr {α β : Type} {f g : α → Option β} {items : List α}
    (same : ∀ item ∈ items, f item = g item) : items.mapM f = items.mapM g := by
  induction items with
  | nil => rfl
  | cons item rest ih =>
      rw [List.mapM_cons, List.mapM_cons, same item (by simp),
        ih fun other member => same other (by simp [member])]

/-- The same nodes and objects, with the children of each node in any order. -/
structure Replica (before after : Records) : Prop where
  nodes : after.nodes = before.nodes
  objects : after.objects = before.objects
  children : ∀ parent, (after.childList parent).Perm (before.childList parent)
  lastNode : ∀ {id node}, before.nodes.get? id = some node → id.val ≤ after.lastNode
  lastObject : ∀ {ref content}, before.objects.get? ref = some content →
    ref.id.val ≤ after.lastObject
  counted : 0 ≤ after.lastObject

namespace Replica

variable (replica : Replica before after)

include replica

theorem position?_eq : after.position? = before.position? := by
  funext id
  unfold position?
  rw [replica.nodes]

theorem linked (linked : Linked before) : Linked after where
  keyed found := linked.keyed (replica.nodes ▸ found)
  numbered found := replica.lastNode (replica.nodes ▸ found)
  stored found above := by
    rw [replica.nodes] at found ⊢
    exact linked.stored found above
  rising found above := linked.rising (replica.nodes ▸ found) above
  listed found above := (replica.children _).mem_iff.mpr
    (linked.listed (replica.nodes ▸ found) above)
  owned member := by
    rw [replica.nodes]
    exact linked.owned ((replica.children _).mem_iff.mp member)
  once parent := (replica.children parent).nodup_iff.mpr (linked.once parent)
  wrapping found above := linked.wrapping (replica.nodes ▸ found) above
  addressed found := by
    rw [replica.objects] at found
    exact ⟨replica.lastObject found, (linked.addressed found).2⟩
  counted := replica.counted
  positive found := linked.positive (replica.objects ▸ found)

theorem tidy (tidy : Tidy before) : Tidy after where
  linked := replica.linked tidy.linked
  contiguous parent := by
    unfold ContiguousAt
    rw [replica.position?_eq, (replica.children parent).length_eq]
    exact ((replica.children parent).map _).trans (tidy.contiguous parent)

/-! ## The readers of the store -/

/-- Sorting by position hides the order of the lists. -/
theorem orderedChildren_eq (tidy : Tidy before) (parent : NodeId) :
    after.orderedChildren parent = before.orderedChildren parent := by
  unfold orderedChildren
  refine inOrder_eq_of_perm (replica.children parent) ?_ ?_
  · intro id _
    rw [replica.position?_eq]
  · rw [replica.position?_eq]
    exact ((replica.children parent).map _).nodup_iff.mpr (tidy.contiguous parent).nodup_positions

theorem childrenOf_eq (tidy : Tidy before) (parent : NodeId) :
    after.childrenOf parent = before.childrenOf parent := by
  unfold childrenOf
  rw [replica.nodes, replica.orderedChildren_eq tidy]

theorem node_eq (id : NodeId) : after.node id = before.node id := by
  unfold node
  rw [replica.nodes]

theorem object_eq (ref : ContentRef) : after.object ref = before.object ref := by
  unfold object
  rw [replica.objects]

theorem objectsOf_eq (kind : Kind) (ids : List ObjectId) :
    after.objectsOf kind ids = before.objectsOf kind ids := by
  induction ids with
  | nil => rfl
  | cons id rest ih =>
      unfold objectsOf
      rw [replica.object_eq, ih]

/-- The two walks may go down to different depths, as long as both come to the leaves. -/
theorem below_eq (tidy : Tidy before) {depth depth' : Nat} {id : NodeId}
    (deep : before.listsBelow id < depth) (deep' : after.listsBelow id < depth') :
    after.below depth' id = before.below depth id := by
  induction depth generalizing depth' id with
  | zero => omega
  | succ depth ih =>
      cases depth' with
      | zero => omega
      | succ depth' =>
          have deeper : (before.orderedChildren id).mapM (after.below depth') =
              (before.orderedChildren id).mapM (before.below depth) := by
            apply mapM_congr
            intro child member
            have member' : child ∈ after.orderedChildren id := by
              rw [replica.orderedChildren_eq tidy]
              exact member
            exact ih (Evaluation.shallow_child tidy.linked deep member)
              (Evaluation.shallow_child (replica.linked tidy.linked) deep' member')
          rw [below, below, replica.orderedChildren_eq tidy, replica.nodes, deeper]

theorem subtree_eq (tidy : Tidy before) (root : NodeId) :
    after.subtree root = before.subtree root := by
  unfold subtree
  rw [replica.nodes, replica.below_eq tidy (listsBelow_lt_depthBound root)
    (listsBelow_lt_depthBound root)]

theorem usesOf_eq (definition : ObjectId) : after.usesOf definition = before.usesOf definition := by
  unfold usesOf
  rw [replica.objects]

theorem isAttached_eq (ref : ContentRef) : after.isAttached ref = before.isAttached ref := by
  unfold isAttached
  rw [replica.nodes]

end Replica

end Records

/-! ## Reading trees -/

namespace Reading

variable {before after : Records}

theorem load_replica (replica : Replica before after) (tidy : Tidy before) (root : NodeId) :
    load after root = load before root := by
  have groups (groups : List (Kind × List ObjectId)) :
      loadGroups after groups = loadGroups before groups := by
    induction groups with
    | nil => rfl
    | cons group rest ih =>
        unfold loadGroups
        simp only [replica.objectsOf_eq, ih]
  have objects (refs : List ContentRef) : loadObjects after refs = loadObjects before refs := by
    unfold loadObjects
    simp only [groups]
  unfold load
  simp only [replica.subtree_eq tidy, objects]

theorem ensure_replica (replica : Replica before after) (tidy : Tidy before) (id : NodeId) :
    ensure after id = ensure before id := by
  unfold ensure
  rw [load_replica replica tidy]

theorem object_replica (replica : Replica before after) (access : Access) (ref : ContentRef) :
    object after access ref = object before access ref := by
  unfold object cachedObject
  simp only [replica.object_eq]

theorem content_replica (replica : Replica before after) (tidy : Tidy before) (access : Access)
    (node : Node) : content after access node = content before access node := by
  have cached (ref : ContentRef) : cachedObject after ref = cachedObject before ref :=
    object_replica replica .cached ref
  unfold content cachedContent
  simp only [replica.object_eq, cached, ensure_replica replica tidy]

theorem children_replica (replica : Replica before after) (tidy : Tidy before) (access : Access)
    (node : Node) : children after access node = children before access node := by
  have nodes (ids : List NodeId) : directNodes after ids = directNodes before ids := by
    induction ids with
    | nil => rfl
    | cons id rest ih =>
        unfold directNodes
        simp only [replica.node_eq, ih]
  unfold children cachedChildren directChildren
  simp only [replica.childrenOf_eq tidy, nodes, ensure_replica replica tidy]

end Reading

/-! ## Snapshots of trees that may lack objects -/

namespace Snapshot

variable {records : Records} {before : Snapshot}

/-- Nodes are held under their own numbers, and what is held as a child of a node is one. -/
structure Filed (records : Records) (snapshot : Snapshot) : Prop where
  keyed : ∀ {id node}, snapshot.nodes.get? id = some node → node.id = id
  listed : ∀ {id ids}, snapshot.children.get? id = some ids →
    ∀ child ∈ ids, child ∈ records.childList id

theorem filed_empty : Filed records empty where
  keyed found := by cases found
  listed known := by cases known

theorem Filed.enterNode (filed : Filed records before) (linked : Linked records) (root : NodeId)
    {node : Node} (stored : records.nodes.get? node.id = some node) :
    Filed records ((before.enterChild root node).enterNode node) where
  keyed {id found} known := by
    rw [get?_enterNode, nodes_enterChild] at known
    rcases Option.or_eq_some_iff.mp known with old | ⟨_, new⟩
    · exact filed.keyed old
    · split at new
      · rename_i here
        rcases Option.some.inj new with rfl
        exact here
      · cases new
  listed {id ids} known child member := by
    have known : (before.enterChild root node).children.get? id = some ids := known
    rw [get?_enterChild] at known
    rcases Option.map_eq_some_iff.mp known with ⟨siblings, old, rfl⟩
    split at member
    · rename_i new
      rcases List.mem_append.mp member with member | member
      · exact filed.listed old child member
      · rcases List.mem_singleton.mp member with rfl
        exact linked.listed stored new.2.1
    · exact filed.listed old child member

theorem Filed.enter (filed : Filed records before) (linked : Linked records) (root : NodeId)
    {nodes : List Node} (stored : ∀ node ∈ nodes, records.nodes.get? node.id = some node) :
    Filed records (before.enter root nodes) := by
  rcases foldl_cover before nodes with ⟨nodes_eq, _, children_eq⟩
  have covered : Filed records (nodes.foldl cover before) := by
    refine ⟨fun found => filed.keyed (nodes_eq ▸ found), fun {id ids} known child member => ?_⟩
    rw [children_eq] at known
    rcases Option.or_eq_some_iff.mp known with old | ⟨_, new⟩
    · exact filed.listed old child member
    · split at new
      · rcases Option.some.inj new with rfl
        cases member
      · cases new
  have entered : Filed records (nodes.foldl
      (fun s node => (s.enterChild root node).enterNode node) (nodes.foldl cover before)) :=
    List.foldlRecOn nodes _ covered fun s filed node member =>
      filed.enterNode linked root (stored node member)
  refine List.foldlRecOn nodes _ entered fun s filed node _ => ⟨fun found => ?_, ?_⟩
  · exact filed.keyed ((same_arrange s node).1 ▸ found)
  · intro id ids known child member
    rw [get?_arrange] at known
    rcases Option.map_eq_some_iff.mp known with ⟨siblings, old, rfl⟩
    split at member
    · exact filed.listed old child (inOrder_perm.subset member)
    · exact filed.listed old child member

end Snapshot

namespace Reading

variable {before after records : Records}

/-- The snapshot of a reading is filed. -/
def Filing (records : Records) (reading : Reading) : Prop := Filed records reading.snapshot

/-- Whether a snapshot is filed depends on its tree alone. -/
theorem filing_of_tree {reading reading' : Reading} (filing : Filing records reading)
    (same : reading'.tree = reading.tree) : Filing records reading' := by
  have nodes : reading'.snapshot.nodes = reading.snapshot.nodes := congrArg Prod.fst same
  have children : reading'.snapshot.children = reading.snapshot.children :=
    congrArg Prod.snd same
  exact ⟨fun found => filing.keyed (nodes ▸ found), fun known => filing.listed (children ▸ known)⟩

theorem leads_filing_of_keeps {α : Type} {step : ReadM α} (keeps : Keeps tree step) :
    Leads (Filing records) (Filing records) (fun _ => True) step :=
  fun reading filing => ⟨filing_of_tree filing (keeps reading), fun _ _ => trivial⟩

theorem leads_filing_load (linked : Linked records) (root : NodeId) :
    Leads (Filing records) (Filing records) (fun _ => True) (load records root) := by
  intro reading filing
  refine ⟨?_, fun _ _ => trivial⟩
  cases listed : records.subtree root with
  | error cause =>
      rw [load_of_unlisted listed]
      exact filing
  | ok nodes =>
      have stored : ∀ node ∈ nodes, records.nodes.get? node.id = some node := by
        rcases linked.listing_of_subtree listed with ⟨top, rest, rfl, rfl, found, listing⟩
        exact fun node member => ((listing.mem_whole_iff found).mp member).1
      have entered := filing.enter linked root stored
      have same : (load records root reading).2.tree =
          ((reading.snapshot.enter root nodes).nodes,
            (reading.snapshot.enter root nodes).children) := tree_load listed
      have nodes_eq : (load records root reading).2.snapshot.nodes =
          (reading.snapshot.enter root nodes).nodes := congrArg Prod.fst same
      have children_eq : (load records root reading).2.snapshot.children =
          (reading.snapshot.enter root nodes).children := congrArg Prod.snd same
      exact ⟨fun found => entered.keyed (nodes_eq ▸ found),
        fun known => entered.listed (children_eq ▸ known)⟩

theorem leads_filing_ensure (linked : Linked records) (id : NodeId) :
    Leads (Filing records) (Filing records) (fun _ => True) (ensure records id) := by
  have marked : Leads (Filing records) (Filing records) (fun _ => True) markOpened :=
    leads_filing_of_keeps fun _ => rfl
  refine marked.bind fun _ _ => leads_now.bind fun snapshot _ => ?_
  split
  · exact .pure trivial
  · exact leads_filing_load linked id

theorem leads_filing_object (access : Access) (ref : ContentRef) :
    Leads (Filing records) (Filing records) (fun _ => True) (object records access ref) := by
  apply leads_filing_of_keeps
  cases access with
  | direct => exact fun _ => rfl
  | cached =>
      refine Keeps.bind (fun _ => rfl) fun _ => Keeps.bind (fun _ => rfl) fun snapshot => ?_
      split
      · exact .pure _
      · refine Keeps.bind (fun _ => rfl) fun content => ?_
        exact Keeps.bind (fun _ => rfl) fun _ => .pure content

theorem leads_filing_content (linked : Linked records) (access : Access) (node : Node) :
    Leads (Filing records) (Filing records) (fun _ => True) (content records access node) := by
  have wrapped (ref : ContentRef) : Leads (Filing records) (Filing records) (fun _ => True)
      (some <$> object records access ref) := by
    rw [map_eq_pure_bind]
    exact (leads_filing_object access ref).bind fun _ _ => .pure trivial
  cases wraps : node.content with
  | none => cases access <;> simp only [content, cachedContent, wraps] <;> exact .pure trivial
  | some ref =>
      cases access with
      | direct =>
          simp only [content, wraps]
          exact wrapped ref
      | cached =>
          simp only [content, cachedContent, wraps]
          exact (leads_filing_ensure linked node.id).bind fun _ _ => wrapped ref

theorem mem_of_loadedNodes {snapshot : Snapshot} (filed : Filed records snapshot)
    {ids : List NodeId} {nodes : List Node} (loaded : loadedNodes snapshot ids = .ok nodes) :
    ∀ node ∈ nodes, node.id ∈ ids := by
  induction ids generalizing nodes with
  | nil =>
      rcases Except.ok.inj loaded with rfl
      simp
  | cons id rest ih =>
      unfold loadedNodes at loaded
      split at loaded
      · cases loaded
      · rename_i node found
        cases others : loadedNodes snapshot rest with
        | error cause =>
            rw [others] at loaded
            cases loaded
        | ok nodes' =>
            rw [others] at loaded
            rcases Except.ok.inj loaded with rfl
            refine List.forall_mem_cons.mpr ⟨?_, fun other member => ?_⟩
            · rw [filed.keyed found]
              exact List.mem_cons_self ..
            · exact List.mem_cons_of_mem _ (ih others other member)

theorem leads_filing_directNodes (linked : Linked records) (ids : List NodeId) :
    Leads (Filing records) (Filing records) (fun nodes => ∀ node ∈ nodes, node.id ∈ ids)
      (directNodes records ids) := by
  induction ids with
  | nil => exact .pure (by simp)
  | cons id rest ih =>
      refine (leads_fetch fun _ _ filing => filing).bind fun node found => ?_
      refine ih.bind fun nodes below => .pure ?_
      refine List.forall_mem_cons.mpr ⟨?_, fun other member => ?_⟩
      · rw [linked.keyed (node_eq_ok.mp found)]
        exact List.mem_cons_self ..
      · exact List.mem_cons_of_mem _ (below other member)

/-- Only children are given as children. -/
theorem leads_filing_children (linked : Linked records) (access : Access) (node : Node) :
    Leads (Filing records) (Filing records)
      (fun nodes => ∀ child ∈ nodes, child.id ∈ records.orderedChildren node.id)
      (children records access node) := by
  cases access with
  | direct =>
      refine (leads_fetch fun _ _ filing => filing).bind fun ids listed => ?_
      rcases childrenOf_eq_ok.mp listed with ⟨_, rfl⟩
      exact leads_filing_directNodes linked _
  | cached =>
      have now : Leads (Filing records) (Filing records) (Filed records) snapshotNow := by
        refine fun reading filing => ⟨filing, fun snapshot done => ?_⟩
        rcases Except.ok.inj done with rfl
        exact filing
      refine (leads_filing_ensure linked node.id).bind fun _ _ => now.bind fun snapshot filed => ?_
      split
      · exact fun reading filing => ⟨filing, fun _ impossible => by cases impossible⟩
      · rename_i ids known
        refine fun reading filing => ⟨filing, fun nodes done child member => ?_⟩
        have loaded := mem_of_loadedNodes filed (Answer.mapError_eq_ok.mp done) child member
        exact mem_orderedChildren.mpr (filed.listed known _ loaded)

/-- Reading a replica is reading the records. -/
theorem interchangeable_replica (replica : Replica before after) (tidy : Tidy before)
    (access : Access) :
    Interchangeable before access after access
      (fun reading reading' => reading = reading' ∧ Filing before reading)
      (fun depth depth' node => before.listsBelow node.id < depth ∧
        after.listsBelow node.id < depth')
      (fun _ => True) where
  ends := by
    rintro depth depth' node ⟨shallow, shallow'⟩
    omega
  content := by
    intro depth depth' node _
    rw [content_replica replica tidy]
    refine (leads_filing_content tidy.linked access node).alike.imp ?_
    exact fun _ _ agree => ⟨agree.1, fun _ _ => trivial⟩
  children := by
    rintro depth depth' node ⟨shallow, shallow'⟩
    -- The depths that are left suffice one level down only if what is given as a child is one.
    rw [children_replica replica tidy]
    refine (leads_filing_children tidy.linked access node).alike.imp ?_
    rintro nodes _ ⟨rfl, listed⟩
    refine ⟨rfl, fun child member => ?_⟩
    have listed' : child.id ∈ after.orderedChildren node.id := by
      rw [replica.orderedChildren_eq tidy]
      exact listed child member
    exact ⟨Evaluation.shallow_child tidy.linked shallow (listed child member),
      Evaluation.shallow_child (replica.linked tidy.linked) shallow' listed'⟩
  definition := by
    intro definition _
    rw [object_replica replica]
    exact (leads_filing_object access _).alike.imp fun _ _ agree => agree.1

end Reading

/-! ## Evaluations and documents -/

namespace Records.Replica

variable {before after : Records} (replica : Replica before after) (tidy : Tidy before)

include replica tidy

theorem interpret_eq [Host] (node : Node) (context : Context) :
    interpret after node context = interpret before node context := by
  have same := Reading.interchangeable_replica replica tidy context.access
  rcases same.alike_node inseparable_eq ⟨listsBelow_lt_depthBound node.id,
    listsBelow_lt_depthBound node.id⟩ ⟨Reading.start, context⟩ ⟨Reading.start, context⟩
      ⟨⟨rfl, filed_empty⟩, rfl⟩ with ⟨⟨⟨readings, _⟩, left⟩, values⟩
  have runs : evaluate before context.access context.library node ⟨Reading.start, context⟩ =
      evaluate after context.access context.library node ⟨Reading.start, context⟩ :=
    Prod.ext (values.eq fun _ _ agree => agree) (congrArg₂ Run.mk readings left)
  unfold interpret interpretWith
  rw [runs]

theorem build_eq (access : Access) (ids : Bool) (node : Node) :
    Block.build after access ids node Reading.start =
      Block.build before access ids node Reading.start := by
  have same := Reading.interchangeable_replica replica tidy access
  have shallow : before.listsBelow node.id < before.depthBound := listsBelow_lt_depthBound _
  have shallow' : after.listsBelow node.id < after.depthBound := listsBelow_lt_depthBound _
  rcases same.alike_build ids ⟨shallow, shallow'⟩
    ⟨Nat.lt_succ_of_lt shallow, Nat.lt_succ_of_lt shallow'⟩ Reading.start Reading.start
      ⟨rfl, filed_empty⟩ with ⟨⟨readings, _⟩, texts⟩
  exact Prod.ext (texts.eq fun _ _ agree => agree).symm readings.symm

end Records.Replica

end RuleTree
