import RuleTree.Proofs.Outcome
import RuleTree.Proofs.Reading.Entering
import RuleTree.Tree.Reading

/-!
# What a load adds to a snapshot

A load enters the nodes of a listing first and asks for their objects then.  So whether or not the
objects are found, and whatever the records are, the load covers the listed nodes besides those that
were covered before, and no others (`Reading.covers_load`).
-/

namespace RuleTree

namespace Snapshot

variable {snapshot : Snapshot} {root id : NodeId} {nodes : List Node}

theorem covers_iff : snapshot.covers id = true ↔ ∃ ids, snapshot.children.get? id = some ids :=
  Option.isSome_iff_exists

/-- What one pass over a listing leaves alone at each node, it leaves alone. -/
theorem foldl_same {α : Type} (part : Snapshot → α) {pass : Snapshot → Node → Snapshot}
    (same : ∀ snapshot node, part (pass snapshot node) = part snapshot) (snapshot : Snapshot)
    (nodes : List Node) : part (nodes.foldl pass snapshot) = part snapshot := by
  induction nodes generalizing snapshot with
  | nil => rfl
  | cons node rest ih => exact (ih _).trans (same snapshot node)

theorem get?_arrange (snapshot : Snapshot) (node : Node) (id : NodeId) :
    (snapshot.arrange node).children.get? id = (snapshot.children.get? id).map fun ids =>
      if node.id = id then Records.inOrder snapshot.position? ids else ids := by
  unfold arrange
  by_cases here : node.id = id
  · subst here
    cases known : snapshot.children.get? node.id <;> simp [known]
  · cases known : snapshot.children.get? node.id <;> simp [here]

/-! ## Entering -/

theorem covers_enter :
    (snapshot.enter root nodes).covers id = true ↔
      snapshot.covers id = true ∨ id ∈ nodes.map Node.id := by
  have entered (before : Snapshot) : (nodes.foldl
      (fun s node => (s.enterChild root node).enterNode node) before).covers id =
        before.covers id := by
    refine foldl_same (·.covers id) (fun s node => ?_) before nodes
    show ((s.enterChild root node).children.get? id).isSome = _
    rw [get?_enterChild, Option.isSome_map]
    rfl
  have arranged (before : Snapshot) :
      (nodes.foldl arrange before).covers id = before.covers id := by
    refine foldl_same (·.covers id) (fun s node => ?_) before nodes
    show ((s.arrange node).children.get? id).isSome = _
    rw [get?_arrange, Option.isSome_map]
    rfl
  unfold enter
  rw [arranged, entered]
  simp only [covers, Table.contains, (foldl_cover snapshot nodes).2.2]
  by_cases listed : id ∈ nodes.map Node.id <;> simp [listed]

theorem objects_enter : (snapshot.enter root nodes).objects = snapshot.objects := by
  have entered (before : Snapshot) : (nodes.foldl
      (fun s node => (s.enterChild root node).enterNode node) before).objects =
        before.objects := by
    refine foldl_same Snapshot.objects (fun s node => ?_) before nodes
    unfold enterNode enterChild
    repeat' split
    all_goals rfl
  have arranged (before : Snapshot) : (nodes.foldl arrange before).objects = before.objects :=
    foldl_same Snapshot.objects (fun s node => (same_arrange s node).2) before nodes
  unfold enter
  rw [arranged, entered, (foldl_cover snapshot nodes).2.1]

/-- A node stays as it was entered first. -/
theorem get?_nodes_enter : (snapshot.enter root nodes).nodes.get? id =
    (snapshot.nodes.get? id).or (nodes.find? fun node => node.id = id) := by
  have entered (before : Snapshot) : (nodes.foldl
      (fun s node => (s.enterChild root node).enterNode node) before).nodes.get? id =
        (before.nodes.get? id).or (nodes.find? fun node => node.id = id) := by
    induction nodes generalizing before with
    | nil => simp
    | cons node rest ih =>
        rw [List.foldl_cons, ih, get?_enterNode, nodes_enterChild, Option.or_assoc, List.find?_cons]
        by_cases here : node.id = id <;> simp [here]
  have arranged (before : Snapshot) : (nodes.foldl arrange before).nodes = before.nodes :=
    foldl_same Snapshot.nodes (fun s node => (same_arrange s node).1) before nodes
  unfold enter
  rw [arranged, entered, (foldl_cover snapshot nodes).1]

/-- What one pass over a listing adds at each node to a list of children is the node. -/
theorem foldl_adds {pass : Snapshot → Node → Snapshot}
    (adds : ∀ (snapshot : Snapshot) (node : Node) (after : List NodeId),
      (pass snapshot node).children.get? id = some after →
        ∃ before, snapshot.children.get? id = some before ∧
          ∀ child ∈ after, child ∈ before ∨ child = node.id)
    {after : List NodeId} (known : (nodes.foldl pass snapshot).children.get? id = some after) :
    ∃ before, snapshot.children.get? id = some before ∧
      ∀ child ∈ after, child ∈ before ∨ child ∈ nodes.map Node.id := by
  induction nodes generalizing snapshot with
  | nil => exact ⟨after, known, fun child member => .inl member⟩
  | cons node rest ih =>
      rcases ih known with ⟨between, known_between, later⟩
      rcases adds snapshot node between known_between with ⟨before, known_before, first⟩
      refine ⟨before, known_before, fun child member => ?_⟩
      rcases later child member with here | listed
      · rcases first child here with old | rfl
        · exact .inl old
        · exact .inr (List.mem_cons_self ..)
      · exact .inr (List.mem_cons_of_mem _ listed)

/-- Every child in a list was in that list before, or it is one of the listed nodes. -/
theorem mem_children_enter {ids : List NodeId} {child : NodeId}
    (known : (snapshot.enter root nodes).children.get? id = some ids) (member : child ∈ ids) :
    (∃ before, snapshot.children.get? id = some before ∧ child ∈ before) ∨
      child ∈ nodes.map Node.id := by
  have arranges (s : Snapshot) (node : Node) (after : List NodeId)
      (known : (s.arrange node).children.get? id = some after) :
      ∃ before, s.children.get? id = some before ∧
        ∀ child ∈ after, child ∈ before ∨ child = node.id := by
    rw [get?_arrange] at known
    rcases Option.map_eq_some_iff.mp known with ⟨before, known_before, rfl⟩
    refine ⟨before, known_before, fun child member => .inl ?_⟩
    split at member
    · exact Records.inOrder_perm.subset member
    · exact member
  have enters (s : Snapshot) (node : Node) (after : List NodeId)
      (known : ((s.enterChild root node).enterNode node).children.get? id = some after) :
      ∃ before, s.children.get? id = some before ∧
        ∀ child ∈ after, child ∈ before ∨ child = node.id := by
    change (s.enterChild root node).children.get? id = some after at known
    rw [get?_enterChild] at known
    rcases Option.map_eq_some_iff.mp known with ⟨before, known_before, rfl⟩
    refine ⟨before, known_before, fun child member => ?_⟩
    split at member
    · simpa using member
    · exact .inl member
  rcases foldl_adds arranges known with ⟨entered, known_entered, arranged⟩
  rcases foldl_adds enters known_entered with ⟨covered, known_covered, added⟩
  rw [(foldl_cover snapshot nodes).2.2] at known_covered
  rcases arranged child member with member | listed
  · rcases added child member with member | listed
    · rcases Option.or_eq_some_iff.mp known_covered with old | ⟨_, new⟩
      · exact .inl ⟨covered, old, member⟩
      · split at new
        · cases new
          cases member
        · cases new
    · exact .inr listed
  · exact .inr listed

end Snapshot

/-! ## Loading -/

namespace Reading

open Step Snapshot

variable {records : Records} {reading : Reading} {root : NodeId}

/-- The tree that a reading has in its snapshot. -/
def tree (reading : Reading) : Table NodeId Node × Table NodeId (List NodeId) :=
  (reading.snapshot.nodes, reading.snapshot.children)

/-- Whether the objects are found or not, loading them leaves the tree alone. -/
theorem keeps_tree_loadObjects (refs : List ContentRef) :
    Keeps tree (loadObjects records refs) := by
  have groups (groups : List (Kind × List ObjectId)) : Keeps tree (loadGroups records groups) := by
    induction groups with
    | nil => exact .pure ()
    | cons group rest ih =>
        refine Keeps.bind (fun _ => rfl) fun objects => ?_
        exact Keeps.bind (fun _ => rfl) fun _ => ih
  exact Keeps.bind (fun _ => rfl) fun _ => groups _

theorem load_of_unlisted {cause : StoreError} (unlisted : records.subtree root = .error cause) :
    load records root reading =
      (.error (.store cause), { reading with fetches := reading.fetches + 1 }) := by
  unfold load fetch
  rw [unlisted]
  rfl

/-- Once the listing is there, its nodes are entered, even if the load fails afterwards. -/
theorem tree_load {nodes : List Node} (listed : records.subtree root = .ok nodes) :
    (load records root reading).2.tree =
      ((reading.snapshot.enter root nodes).nodes,
        (reading.snapshot.enter root nodes).children) := by
  have rest : Keeps tree (loadObjects records (nodes.filterMap Node.content) >>= fun _ =>
      snapshotNow >>= fun snapshot => loadObjects records snapshot.namedDefinitions) :=
    (keeps_tree_loadObjects _).bind fun _ =>
      Keeps.bind (fun _ => rfl) fun _ => keeps_tree_loadObjects _
  have first : load records root reading =
      (loadObjects records (nodes.filterMap Node.content) >>= fun _ =>
        snapshotNow >>= fun snapshot => loadObjects records snapshot.namedDefinitions)
      ⟨reading.snapshot.enter root nodes, reading.opened, reading.fetches + 1⟩ := by
    unfold load
    rw [listed]
    rfl
  rw [first]
  exact rest _

/-- A load covers what it lists, whether it succeeds or fails. -/
theorem covers_load {id : NodeId} :
    (load records root reading).2.snapshot.covers id = true ↔
      reading.snapshot.covers id = true ∨
        ∃ nodes, records.subtree root = .ok nodes ∧ id ∈ nodes.map Node.id := by
  cases listed : records.subtree root with
  | error cause => simp [load_of_unlisted listed]
  | ok nodes =>
      have children : (load records root reading).2.snapshot.children =
          (reading.snapshot.enter root nodes).children := congrArg Prod.snd (tree_load listed)
      unfold covers
      rw [children]
      simpa [covers] using @covers_enter reading.snapshot root id nodes

end Reading

end RuleTree
