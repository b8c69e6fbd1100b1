import RuleTree.Proofs.Tree.Editing
import RuleTree.Tree.Snapshot

/-!
# Entering a subtree into a snapshot

A snapshot is faithful when all that it holds is what the records hold.  The listing of a subtree
has the children of each node in another order, but sorting them by their positions gives the order
of the records, since no two children share a position.  So entering a listing keeps a snapshot
faithful (`Snapshot.faithful_enter`), whatever had been entered before.
-/

namespace RuleTree.Snapshot

open Records

variable {records : Records} {before snapshot : Snapshot} {root : NodeId}

/-- The definition that an object names, if it is the use of a variable, is stored. -/
def Defined (records : Records) (content : Content) : Prop :=
  ∀ definition, content = .use definition →
    ∃ object, records.objects.get? ⟨.definition, definition⟩ = some object

/-- What the snapshot holds is what the records hold. -/
structure Faithful (records : Records) (snapshot : Snapshot) : Prop where
  nodes : ∀ {id node}, snapshot.nodes.get? id = some node → records.nodes.get? id = some node
  children : ∀ {id ids}, snapshot.children.get? id = some ids →
    ids = records.orderedChildren id ∧ ∀ child ∈ id :: ids, ∃ node,
      snapshot.nodes.get? child = some node
  objects : ∀ {ref content}, snapshot.objects.get? ref = some content →
    records.objects.get? ref = some content ∧ Defined records content

theorem faithful_empty : Faithful records empty where
  nodes found := by cases found
  children found := by cases found
  objects found := by cases found

/-! ## Room for children -/

theorem foldl_cover (before : Snapshot) (nodes : List Node) :
    (nodes.foldl cover before).nodes = before.nodes ∧
      (nodes.foldl cover before).objects = before.objects ∧
        ∀ id, (nodes.foldl cover before).children.get? id =
          (before.children.get? id).or (if id ∈ nodes.map Node.id then some [] else none) := by
  induction nodes generalizing before with
  | nil => simp
  | cons node rest ih =>
      rcases ih (before.cover node) with ⟨nodes_eq, objects_eq, children_eq⟩
      have same : (before.cover node).nodes = before.nodes ∧
          (before.cover node).objects = before.objects := by
        unfold cover
        split <;> exact ⟨rfl, rfl⟩
      have step (id : NodeId) : (before.cover node).children.get? id =
          (before.children.get? id).or (if node.id = id then some [] else none) := by
        unfold cover covers Table.contains
        cases found : before.children.get? node.id with
        | some ids =>
            by_cases here : node.id = id
            · subst here
              simp [found]
            · simp [here]
        | none =>
            by_cases here : node.id = id
            · subst here
              simp [found]
            · simp [here]
      refine ⟨nodes_eq.trans same.1, objects_eq.trans same.2, fun id => ?_⟩
      rw [List.foldl_cons, children_eq, step, Option.or_assoc, List.map_cons]
      congr 1
      by_cases here : node.id = id
      · simp [here]
      · simp [here, Ne.symm here]

/-! ## Children -/

/-- Part of a listing was entered into a snapshot. -/
structure Entering (records : Records) (before : Snapshot) (root : NodeId)
    (nodes entered : List Node) (snapshot : Snapshot) : Prop where
  objects : snapshot.objects = before.objects
  loaded : ∀ {id node}, snapshot.nodes.get? id = some node → records.nodes.get? id = some node
  kept_node : ∀ {id node}, before.nodes.get? id = some node → snapshot.nodes.get? id = some node
  found : ∀ node ∈ entered, snapshot.nodes.get? node.id = some node
  kept : ∀ {id ids}, before.children.get? id = some ids → snapshot.children.get? id = some ids
  covered : ∀ id, (∃ ids, snapshot.children.get? id = some ids) ↔
    (∃ ids, before.children.get? id = some ids) ∨ id ∈ nodes.map Node.id
  sound : ∀ {id ids}, snapshot.children.get? id = some ids →
    ids.Nodup ∧ ids ⊆ records.childList id
  complete : ∀ node ∈ entered, node.id ≠ root → ∀ parent, node.parent = some parent →
    ∀ ids, snapshot.children.get? parent = some ids → node.id ∈ ids

theorem Entering.start (linked : Linked records) (faithful : Faithful records before)
    (nodes : List Node) : Entering records before root nodes [] (nodes.foldl cover before) := by
  rcases foldl_cover before nodes with ⟨nodes_eq, objects_eq, children_eq⟩
  refine ⟨objects_eq, ?_, ?_, by simp, ?_, ?_, ?_, by simp⟩
  · intro id node found
    rw [nodes_eq] at found
    exact faithful.nodes found
  · intro id node found
    rw [nodes_eq]
    exact found
  · intro id ids found
    rw [children_eq, found]
    rfl
  · intro id
    rw [children_eq]
    cases before.children.get? id <;> simp
  · intro id ids found
    rw [children_eq] at found
    rcases Option.or_eq_some_iff.mp found with old | ⟨_, new⟩
    · rcases faithful.children old with ⟨rfl, _⟩
      refine ⟨orderedChildren_perm.nodup_iff.mpr (linked.once id), ?_⟩
      exact fun child member => mem_orderedChildren.mp member
    · split at new
      · rcases Option.some.inj new with rfl
        exact ⟨List.nodup_nil, List.nil_subset _⟩
      · cases new

theorem get?_enterChild (snapshot : Snapshot) (root : NodeId) (node : Node) (id : NodeId) :
    (snapshot.enterChild root node).children.get? id =
      (snapshot.children.get? id).map fun siblings =>
        if node.id ≠ root ∧ node.parent = some id ∧ node.id ∉ siblings then siblings ++ [node.id]
        else siblings := by
  unfold enterChild
  by_cases top : node.id = root
  · simp [top]
  · cases above : node.parent with
    | none => simp [top]
    | some parent =>
        cases known : snapshot.children.get? parent with
        | none =>
            by_cases here : parent = id
            · subst here
              simp [top, known]
            · simp [top, known, here]
        | some siblings =>
            by_cases here : parent = id
            · subst here
              by_cases member : node.id ∈ siblings <;> simp [top, known, member]
            · by_cases member : node.id ∈ siblings <;> simp [top, known, here, member]

theorem nodes_enterChild (snapshot : Snapshot) (root : NodeId) (node : Node) :
    (snapshot.enterChild root node).nodes = snapshot.nodes := by
  unfold enterChild
  repeat' split
  all_goals rfl

theorem get?_enterNode (snapshot : Snapshot) (node : Node) (id : NodeId) :
    (snapshot.enterNode node).nodes.get? id =
      (snapshot.nodes.get? id).or (if node.id = id then some node else none) := by
  unfold enterNode Table.contains
  cases known : snapshot.nodes.get? node.id with
  | none =>
      by_cases here : node.id = id
      · subst here
        simp [known]
      · simp [here]
  | some old =>
      by_cases here : node.id = id
      · subst here
        simp [known]
      · simp [here]

theorem Entering.step {nodes entered : List Node} {node : Node} (linked : Linked records)
    (faithful : Faithful records before)
    (entering : Entering records before root nodes entered snapshot)
    (stored : records.nodes.get? node.id = some node) :
    Entering records before root nodes (entered ++ [node])
      ((snapshot.enterChild root node).enterNode node) := by
  have same_objects : ((snapshot.enterChild root node).enterNode node).objects =
      snapshot.objects := by
    unfold enterNode enterChild
    repeat' split
    all_goals rfl
  have nodes_eq (id : NodeId) := get?_enterNode (snapshot.enterChild root node) node id
  rw [nodes_enterChild] at nodes_eq
  have children_eq (id : NodeId) :
      ((snapshot.enterChild root node).enterNode node).children.get? id =
        (snapshot.enterChild root node).children.get? id := rfl
  have kept_found {id : NodeId} {old : Node} (found : snapshot.nodes.get? id = some old) :
      ((snapshot.enterChild root node).enterNode node).nodes.get? id = some old := by
    rw [nodes_eq, found]
    rfl
  refine
    { objects := same_objects.trans entering.objects, loaded := ?_
      kept_node := fun found => kept_found (entering.kept_node found)
      found := ?_, kept := ?_, covered := ?_, sound := ?_, complete := ?_ }
  · intro id loaded found
    rw [nodes_eq] at found
    rcases Option.or_eq_some_iff.mp found with old | ⟨_, new⟩
    · exact entering.loaded old
    · split at new
      · rename_i here
        rcases Option.some.inj new with rfl
        exact here ▸ stored
      · cases new
  · intro other member
    rcases List.mem_append.mp member with old | new
    · exact kept_found (entering.found other old)
    · rcases List.mem_singleton.mp new with rfl
      cases known : snapshot.nodes.get? other.id with
      | none =>
          rw [nodes_eq, known]
          simp
      | some old =>
          have same := entering.loaded known
          rw [stored] at same
          rcases Option.some.inj same with rfl
          exact kept_found known
  · intro id ids known
    rw [children_eq, get?_enterChild, entering.kept known, Option.map_some, if_neg]
    -- A parent that was covered before has all of its children already.
    rintro ⟨_, above, absent⟩
    rcases faithful.children known with ⟨rfl, _⟩
    exact absent (mem_orderedChildren.mpr (linked.listed stored above))
  · intro id
    rw [children_eq, get?_enterChild, ← entering.covered]
    cases snapshot.children.get? id <;> simp
  · intro id ids known
    rw [children_eq, get?_enterChild] at known
    rcases Option.map_eq_some_iff.mp known with ⟨siblings, old_known, rfl⟩
    rcases entering.sound old_known with ⟨distinct, listed⟩
    split
    · rename_i new
      rcases new with ⟨_, above, absent⟩
      refine ⟨List.nodup_append.mpr ⟨distinct, by simp, ?_⟩, ?_⟩
      · rintro child member other other_mem rfl
        rw [List.mem_singleton.mp other_mem] at member
        exact absent member
      · intro child member
        rcases List.mem_append.mp member with old | new
        · exact listed old
        · rcases List.mem_singleton.mp new with rfl
          exact linked.listed stored above
    · exact ⟨distinct, listed⟩
  · intro other member below parent above ids known
    rw [children_eq, get?_enterChild] at known
    rcases Option.map_eq_some_iff.mp known with ⟨siblings, old_known, rfl⟩
    rcases List.mem_append.mp member with old | new
    · have listed := entering.complete other old below parent above siblings old_known
      split
      · exact List.mem_append_left _ listed
      · exact listed
    · rcases List.mem_singleton.mp new with rfl
      by_cases listed : other.id ∈ siblings
      · simp [listed]
      · simp [below, above, listed]

theorem Entering.run {nodes entered rest : List Node} (linked : Linked records)
    (faithful : Faithful records before)
    (entering : Entering records before root nodes entered snapshot)
    (stored : ∀ node ∈ rest, records.nodes.get? node.id = some node) :
    Entering records before root nodes (entered ++ rest)
      (rest.foldl (fun s node => (s.enterChild root node).enterNode node) snapshot) := by
  induction rest generalizing entered snapshot with
  | nil => simpa using entering
  | cons node rest ih =>
      have next := entering.step linked faithful (stored node (by simp))
      simpa using ih next fun other member => stored other (by simp [member])

/-! ## Order -/

theorem same_arrange (snapshot : Snapshot) (node : Node) :
    (snapshot.arrange node).nodes = snapshot.nodes ∧
      (snapshot.arrange node).objects = snapshot.objects := by
  unfold arrange
  split <;> exact ⟨rfl, rfl⟩

theorem foldl_arrange (snapshot : Snapshot) {nodes : List Node}
    (distinct : (nodes.map Node.id).Nodup) :
    (nodes.foldl arrange snapshot).nodes = snapshot.nodes ∧
      (nodes.foldl arrange snapshot).objects = snapshot.objects ∧
        ∀ id, (nodes.foldl arrange snapshot).children.get? id =
          if id ∈ nodes.map Node.id then
            (snapshot.children.get? id).map (inOrder snapshot.position?)
          else snapshot.children.get? id := by
  induction nodes generalizing snapshot with
  | nil => simp
  | cons node rest ih =>
      rcases List.nodup_cons.mp distinct with ⟨outside, distinct⟩
      rcases ih (snapshot.arrange node) distinct with ⟨nodes_eq, objects_eq, children_eq⟩
      have same := same_arrange snapshot node
      have positions : (snapshot.arrange node).position? = snapshot.position? := by
        funext id
        rw [Snapshot.position?, same.1]
        rfl
      have step (id : NodeId) : (snapshot.arrange node).children.get? id =
          if id = node.id then (snapshot.children.get? id).map (inOrder snapshot.position?)
          else snapshot.children.get? id := by
        unfold arrange
        by_cases here : id = node.id
        · subst here
          cases known : snapshot.children.get? node.id with
          | none => simp [known]
          | some ids => simp
        · cases known : snapshot.children.get? node.id with
          | none => simp [here]
          | some ids => simp [here, Ne.symm here]
      refine ⟨nodes_eq.trans same.1, objects_eq.trans same.2, fun id => ?_⟩
      rw [List.foldl_cons, children_eq, step, positions, List.map_cons]
      by_cases here : id = node.id
      · subst here
        simp [outside]
      · simp [here]

/-! ## Whole listings -/

/-- The children of a listed node are listed themselves. -/
theorem children_listed {top : Node} {rest : List Node} (linked : Linked records)
    (listing : Listing records top.id rest) {id child : NodeId}
    (member : id ∈ (top :: rest).map Node.id) (below : child ∈ records.childList id) :
    ∃ node ∈ rest, node.id = child ∧ node.parent = some id := by
  rcases linked.owned below with ⟨node, found, above⟩
  rcases linked.keyed found with rfl
  refine ⟨node, (listing.mem_iff node).mpr ⟨found, ?_⟩, rfl, above⟩
  rcases List.mem_cons.mp member with rfl | inner
  · exact .single below
  · rcases List.mem_map.mp inner with ⟨parent, parent_mem, rfl⟩
    exact ((listing.mem_iff parent).mp parent_mem).2.tail below

section Entered

variable {top : Node} {rest : List Node} {id : NodeId} {ids : List NodeId}

/-- After a whole listing was entered, its nodes have all of their children, in some order. -/
theorem Entering.perm_childList (linked : Linked records) (listing : Listing records top.id rest)
    (entering : Entering records before top.id (top :: rest) (top :: rest) snapshot)
    (member : id ∈ (top :: rest).map Node.id) (known : snapshot.children.get? id = some ids) :
    ids.Perm (records.childList id) := by
  rcases entering.sound known with ⟨once, sub⟩
  refine (List.perm_ext_iff_of_nodup once (linked.once id)).mpr fun child => ⟨@sub child, ?_⟩
  intro below
  rcases children_listed linked listing member below with ⟨node, node_mem, rfl, above⟩
  refine entering.complete node (by simp [node_mem]) ?_ id above ids known
  intro same
  have under := ((listing.mem_iff node).mp node_mem).2
  rw [same] at under
  exact linked.not_under_self _ under

/-- Sorting by the positions that were entered gives the order of the records. -/
theorem Entering.children_inside (tidy : Tidy records) (listing : Listing records top.id rest)
    (entering : Entering records before top.id (top :: rest) (top :: rest) snapshot)
    (member : id ∈ (top :: rest).map Node.id) (known : snapshot.children.get? id = some ids) :
    inOrder snapshot.position? ids = records.orderedChildren id ∧
      ∀ child ∈ id :: inOrder snapshot.position? ids, ∃ node,
        snapshot.nodes.get? child = some node := by
  have perm := entering.perm_childList tidy.linked listing member known
  have loaded : ∀ child ∈ ids, ∃ node, snapshot.nodes.get? child = some node := by
    intro child child_mem
    rcases children_listed tidy.linked listing member (perm.subset child_mem) with
      ⟨node, node_mem, rfl, _⟩
    exact ⟨node, entering.found node (by simp [node_mem])⟩
  constructor
  · refine (inOrder_eq_of_perm perm.symm ?_ (tidy.contiguous id).nodup_positions).symm
    intro child child_mem
    rcases loaded child (perm.symm.subset child_mem) with ⟨node, found⟩
    simp only [Records.position?, Snapshot.position?, found, entering.loaded found]
  · intro child child_mem
    rcases List.mem_cons.mp child_mem with rfl | below
    · rcases List.mem_map.mp member with ⟨node, node_mem, rfl⟩
      exact ⟨node, entering.found node node_mem⟩
    · exact loaded child (inOrder_perm.subset below)

/-- Lists of children that were entered before stay as they are. -/
theorem Entering.children_outside {nodes entered : List Node} (faithful : Faithful records before)
    (entering : Entering records before root nodes entered snapshot)
    (outside : id ∉ nodes.map Node.id) (known : snapshot.children.get? id = some ids) :
    ids = records.orderedChildren id ∧
      ∀ child ∈ id :: ids, ∃ node, snapshot.nodes.get? child = some node := by
  rcases (entering.covered id).mp ⟨ids, known⟩ with ⟨old, before_known⟩ | inside
  · have same := entering.kept before_known
    rw [known] at same
    rcases Option.some.inj same with rfl
    rcases faithful.children before_known with ⟨ordered, loaded⟩
    refine ⟨ordered, fun child child_mem => ?_⟩
    rcases loaded child child_mem with ⟨node, found⟩
    exact ⟨node, entering.kept_node found⟩
  · exact absurd inside outside

end Entered

/-- Entering the listing of a subtree covers it and keeps the snapshot faithful. -/
theorem faithful_enter {top : Node} {rest : List Node} (tidy : Tidy records)
    (faithful : Faithful records before) (stored : records.nodes.get? top.id = some top)
    (listing : Listing records top.id rest) :
    Faithful records (before.enter top.id (top :: rest)) ∧
      (before.enter top.id (top :: rest)).objects = before.objects ∧
        ∀ node ∈ top :: rest, ∃ ids,
          (before.enter top.id (top :: rest)).children.get? node.id = some ids := by
  have linked := tidy.linked
  have all_stored : ∀ node ∈ top :: rest, records.nodes.get? node.id = some node :=
    fun _ member => ((listing.mem_whole_iff stored).mp member).1
  have distinct : ((top :: rest).map Node.id).Nodup := linked.nodup_whole listing
  generalize entered_eq : (top :: rest).foldl
    (fun s node => (s.enterChild top.id node).enterNode node)
      ((top :: rest).foldl cover before) = entered
  have entering : Entering records before top.id (top :: rest) (top :: rest) entered := by
    rw [← entered_eq]
    exact (Entering.start linked faithful (top :: rest)).run linked faithful all_stored
  rcases foldl_arrange entered distinct with ⟨nodes_eq, objects_eq, children_eq⟩
  have enter_eq : before.enter top.id (top :: rest) = (top :: rest).foldl arrange entered := by
    rw [← entered_eq]
    rfl
  rw [enter_eq]
  refine ⟨⟨?_, ?_, ?_⟩, objects_eq.trans entering.objects, ?_⟩
  · intro id node found
    rw [nodes_eq] at found
    exact entering.loaded found
  · intro id ids known
    rw [children_eq] at known
    rw [nodes_eq]
    split at known
    · rename_i member
      rcases Option.map_eq_some_iff.mp known with ⟨listed, listed_known, rfl⟩
      exact entering.children_inside tidy listing member listed_known
    · rename_i outside
      exact entering.children_outside faithful outside known
  · intro ref content found
    rw [objects_eq, entering.objects] at found
    exact faithful.objects found
  · intro node member
    have listed : node.id ∈ (top :: rest).map Node.id := List.mem_map.mpr ⟨node, member, rfl⟩
    rcases (entering.covered node.id).mpr (.inr listed) with ⟨ids, known⟩
    rw [children_eq, if_pos listed, known]
    exact ⟨_, rfl⟩

end RuleTree.Snapshot
