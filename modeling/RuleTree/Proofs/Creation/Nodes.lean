import RuleTree.Proofs.Tree.Editing

/-!
# The nodes of a stored sketch

Storing the nodes of a sketch gives a tree of the same shape (`Creation.Mirrors`): every node has
the children of its part of the sketch, in their order, and wraps the object that the data of the
part name.  `Creation.Planted` says what one run adds to its parent and that all else is as before.
-/

namespace RuleTree.Creation

open Step Store Records

variable {store after : Store}

/-! ## Trees with the shape of a sketch -/

mutual

/-- The stored tree below a number has the shape of a sketch.  Its nodes have numbers above the
floor, and their objects fit the data of the sketch. -/
def Mirrors (records : Records) (floor : Int) (fits : Fields → ContentRef → Prop) :
    Sketch → NodeId → Prop
  | ⟨data, children⟩, id =>
      floor < id.val ∧
        (∃ node ref, records.nodes.get? id = some node ∧ node.content = some ref ∧
          fits data ref) ∧
          MirrorsAll records floor fits children (records.orderedChildren id)

/-- Stored trees have the shapes of sketches, one by one. -/
def MirrorsAll (records : Records) (floor : Int) (fits : Fields → ContentRef → Prop) :
    List Sketch → List NodeId → Prop
  | [], ids => ids = []
  | tree :: rest, ids =>
      ∃ id others, ids = id :: others ∧ Mirrors records floor fits tree id ∧
        MirrorsAll records floor fits rest others

end

section Mirrors

variable {records before : Records} {floor floor' : Int} {fits fits' : Fields → ContentRef → Prop}

theorem Mirrors.stored {tree : Sketch} {id : NodeId}
    (mirrors : Mirrors records floor fits tree id) :
    ∃ node, records.nodes.get? id = some node := by
  rcases tree with ⟨data, children⟩
  rcases mirrors with ⟨_, ⟨node, _, found, _⟩, _⟩
  exact ⟨node, found⟩

theorem MirrorsAll.append {first second : List Sketch} {ids ids' : List NodeId}
    (left : MirrorsAll records floor fits first ids)
    (right : MirrorsAll records floor fits second ids') :
    MirrorsAll records floor fits (first ++ second) (ids ++ ids') := by
  induction first generalizing ids with
  | nil =>
      rcases left with rfl
      exact right
  | cons tree rest ih =>
      rcases left with ⟨id, others, rfl, here, left⟩
      exact ⟨id, others ++ ids', rfl, here, ih left⟩

theorem MirrorsAll.split {first second : List Sketch} {ids : List NodeId}
    (mirrors : MirrorsAll records floor fits (first ++ second) ids) :
    ∃ left right, ids = left ++ right ∧ MirrorsAll records floor fits first left ∧
      MirrorsAll records floor fits second right := by
  induction first generalizing ids with
  | nil => exact ⟨[], ids, rfl, rfl, mirrors⟩
  | cons tree rest ih =>
      rcases mirrors with ⟨id, others, rfl, here, mirrors⟩
      rcases ih mirrors with ⟨left, right, rfl, below, mirrors⟩
      exact ⟨id :: left, right, rfl, ⟨id, left, rfl, here, below⟩, mirrors⟩

theorem MirrorsAll.length_eq {trees : List Sketch} {ids : List NodeId}
    (mirrors : MirrorsAll records floor fits trees ids) : ids.length = trees.length := by
  induction trees generalizing ids with
  | nil =>
      rcases mirrors with rfl
      rfl
  | cons tree rest ih =>
      rcases mirrors with ⟨id, others, rfl, _, mirrors⟩
      simp [ih mirrors]

theorem MirrorsAll.length_nodes {trees : List Sketch} {ids : List NodeId}
    (mirrors : MirrorsAll records floor fits trees ids) :
    (ids.filterMap records.nodes.get?).length = trees.length := by
  induction trees generalizing ids with
  | nil =>
      rcases mirrors with rfl
      rfl
  | cons tree rest ih =>
      rcases mirrors with ⟨id, others, rfl, here, mirrors⟩
      rcases here.stored with ⟨node, found⟩
      rw [List.filterMap_cons_some found, List.length_cons, List.length_cons, ih mirrors]

mutual

/-- Every node of the tree has the shape of some part of the sketch. -/
theorem Mirrors.part_below {other : NodeId} : ∀ {tree : Sketch} {id : NodeId},
    Mirrors records floor fits tree id → Relation.ReflTransGen records.ChildOf id other →
      ∃ part ∈ tree.walk, Mirrors records floor fits part other
  | ⟨data, children⟩, id, mirrors, path => by
      rcases Relation.ReflTransGen.cases_head path with rfl | ⟨child, listed, path⟩
      · exact ⟨_, List.mem_cons_self .., mirrors⟩
      · rcases mirrors with ⟨_, _, below⟩
        rcases below.part_below (mem_orderedChildren.mpr listed) path with ⟨part, member, here⟩
        exact ⟨part, List.mem_cons_of_mem _ member, here⟩

theorem MirrorsAll.part_below {other : NodeId} :
    ∀ {trees : List Sketch} {ids : List NodeId} {id : NodeId},
      MirrorsAll records floor fits trees ids → id ∈ ids →
        Relation.ReflTransGen records.ChildOf id other →
          ∃ part ∈ Sketch.walkAll trees, Mirrors records floor fits part other
  | [], ids, id, mirrors, member, _ => by
      rcases mirrors with rfl
      cases member
  | tree :: rest, ids, id, mirrors, member, path => by
      rcases mirrors with ⟨first, others, rfl, here, mirrors⟩
      rcases List.mem_cons.mp member with rfl | later
      · rcases here.part_below path with ⟨part, part_mem, mirrored⟩
        exact ⟨part, List.mem_append_left _ part_mem, mirrored⟩
      · rcases mirrors.part_below later path with ⟨part, part_mem, mirrored⟩
        exact ⟨part, List.mem_append_right _ part_mem, mirrored⟩

end

mutual

/-- Every part of the sketch is the shape of some node of the tree. -/
theorem Mirrors.part_node {part : Sketch} : ∀ {tree : Sketch} {id : NodeId},
    Mirrors records floor fits tree id → part ∈ tree.walk →
      ∃ other, Relation.ReflTransGen records.ChildOf id other ∧
        Mirrors records floor fits part other
  | ⟨data, children⟩, id, mirrors, member => by
      rcases List.mem_cons.mp member with rfl | below
      · exact ⟨id, .refl, mirrors⟩
      · rcases mirrors with ⟨_, _, mirrors⟩
        rcases mirrors.part_node below with ⟨child, listed, other, path, here⟩
        exact ⟨other, .head (mem_orderedChildren.mp listed) path, here⟩

theorem MirrorsAll.part_node {part : Sketch} : ∀ {trees : List Sketch} {ids : List NodeId},
    MirrorsAll records floor fits trees ids → part ∈ Sketch.walkAll trees →
      ∃ id ∈ ids, ∃ other, Relation.ReflTransGen records.ChildOf id other ∧
        Mirrors records floor fits part other
  | [], _, _, impossible => by cases impossible
  | tree :: rest, ids, mirrors, member => by
      rcases mirrors with ⟨id, others, rfl, here, mirrors⟩
      rcases List.mem_append.mp member with member | member
      · exact ⟨id, by simp, here.part_node member⟩
      · rcases mirrors.part_node member with ⟨other, listed, found⟩
        exact ⟨other, by simp [listed], found⟩

end

theorem Mirrors.fits_data {tree : Sketch} {id : NodeId} {node : Node} {ref : ContentRef}
    (mirrors : Mirrors records floor fits tree id) (found : records.nodes.get? id = some node)
    (wraps : node.content = some ref) : fits tree.data ref := by
  rcases tree with ⟨data, children⟩
  rcases mirrors with ⟨_, ⟨node', ref', found', wraps', fit⟩, _⟩
  rw [found] at found'
  rcases Option.some.inj found' with rfl
  rw [wraps] at wraps'
  rcases Option.some.inj wraps' with rfl
  exact fit

/-- The object of every node of the tree fits some part of the sketch. -/
theorem Mirrors.fits_below {tree : Sketch} {id other : NodeId} {node : Node} {ref : ContentRef}
    (mirrors : Mirrors records floor fits tree id)
    (path : Relation.ReflTransGen records.ChildOf id other)
    (found : records.nodes.get? other = some node) (wraps : node.content = some ref) :
    ∃ part ∈ tree.walk, fits part.data ref := by
  rcases mirrors.part_below path with ⟨part, member, here⟩
  exact ⟨part, member, here.fits_data found wraps⟩

theorem MirrorsAll.fits_below {trees : List Sketch} {ids : List NodeId} {id other : NodeId}
    {node : Node} {ref : ContentRef} (mirrors : MirrorsAll records floor fits trees ids)
    (member : id ∈ ids) (path : Relation.ReflTransGen records.ChildOf id other)
    (found : records.nodes.get? other = some node) (wraps : node.content = some ref) :
    ∃ part ∈ Sketch.walkAll trees, fits part.data ref := by
  rcases mirrors.part_below member path with ⟨part, part_mem, here⟩
  exact ⟨part, part_mem, here.fits_data found wraps⟩

/-- Children of nodes that are not extended stay as they are, in their order. -/
theorem orderedChildren_grown {opened : NodeId → Prop} (tidy : Tidy before)
    (grown : Grown opened before records) {id : NodeId} {node : Node}
    (found : before.nodes.get? id = some node) (closed : ¬opened id) :
    records.orderedChildren id = before.orderedChildren id := by
  apply (tidy.contiguous id).orderedChildren_congr (grown.lists found closed)
  intro child member
  rcases tidy.linked.owned member with ⟨node, found, _⟩
  simp [position?, found, grown.nodes found]

mutual

/-- A tree above the floor stays as it is while nodes below the floor are extended. -/
theorem Mirrors.grown {opened : NodeId → Prop} (tidy : Tidy before)
    (grown : Grown opened before records) (low : ∀ id, opened id → id.val ≤ floor)
    (lower : floor' ≤ floor) (imp : ∀ data ref, fits data ref → fits' data ref) :
    ∀ {tree : Sketch} {id : NodeId}, Mirrors before floor fits tree id →
      Mirrors records floor' fits' tree id
  | ⟨data, children⟩, id, mirrors => by
      rcases mirrors with ⟨above, ⟨node, ref, found, content, fit⟩, below⟩
      have closed : ¬opened id := by
        intro open'
        have bound := low id open'
        omega
      refine ⟨by omega, ⟨node, ref, grown.nodes found, content, imp data ref fit⟩, ?_⟩
      rw [orderedChildren_grown tidy grown found closed]
      exact below.grown tidy grown low lower imp

theorem MirrorsAll.grown {opened : NodeId → Prop} (tidy : Tidy before)
    (grown : Grown opened before records) (low : ∀ id, opened id → id.val ≤ floor)
    (lower : floor' ≤ floor) (imp : ∀ data ref, fits data ref → fits' data ref) :
    ∀ {trees : List Sketch} {ids : List NodeId}, MirrorsAll before floor fits trees ids →
      MirrorsAll records floor' fits' trees ids
  | [], ids, mirrors => mirrors
  | tree :: rest, ids, mirrors => by
      rcases mirrors with ⟨id, others, rfl, here, mirrors⟩
      exact ⟨id, others, rfl, here.grown tidy grown low lower imp,
        mirrors.grown tidy grown low lower imp⟩

end

mutual

/-- What the object of each node fits may be replaced part by part. -/
theorem Mirrors.imp_walk :
    ∀ {tree : Sketch} {id : NodeId}, Mirrors records floor fits tree id →
      (∀ part ∈ tree.walk, ∀ ref, fits part.data ref → fits' part.data ref) →
        Mirrors records floor fits' tree id
  | ⟨_, _⟩, _, ⟨above, ⟨node, ref, found, wraps, fit⟩, below⟩, imp =>
      ⟨above, ⟨node, ref, found, wraps, imp _ (List.mem_cons_self ..) ref fit⟩,
        below.imp_walk fun part member => imp part (List.mem_cons_of_mem _ member)⟩

theorem MirrorsAll.imp_walk :
    ∀ {trees : List Sketch} {ids : List NodeId}, MirrorsAll records floor fits trees ids →
      (∀ part ∈ Sketch.walkAll trees, ∀ ref, fits part.data ref → fits' part.data ref) →
        MirrorsAll records floor fits' trees ids
  | [], _, mirrors, _ => mirrors
  | _ :: _, _, ⟨id, others, same, here, mirrors⟩, imp =>
      ⟨id, others, same,
        here.imp_walk fun part member => imp part (List.mem_append_left _ member),
        mirrors.imp_walk fun part member => imp part (List.mem_append_right _ member)⟩

end

mutual

/-- A tree has the shape of a sketch with changed data if it has the shape of the sketch. -/
theorem Mirrors.of_mapData {change : Fields → Fields} :
    ∀ {tree : Sketch} {id : NodeId}, Mirrors records floor fits (tree.mapData change) id →
      Mirrors records floor (fun data => fits (change data)) tree id
  | ⟨_, _⟩, _, ⟨above, wraps, below⟩ => ⟨above, wraps, below.of_mapData⟩

theorem MirrorsAll.of_mapData {change : Fields → Fields} :
    ∀ {trees : List Sketch} {ids : List NodeId},
      MirrorsAll records floor fits (Sketch.mapDataAll change trees) ids →
        MirrorsAll records floor (fun data => fits (change data)) trees ids
  | [], _, mirrors => mirrors
  | _ :: _, _, ⟨id, others, same, here, mirrors⟩ =>
      ⟨id, others, same, here.of_mapData, mirrors.of_mapData⟩

end

end Mirrors

/-! ## Planting -/

/-- A node that was just saved is stored and has no children. -/
theorem new_node {before after : Records} {parent : Option NodeId} {position : Nat}
    {content : Option ContentRef} {node : Node} (linked : Linked before)
    (saved : before.saveNode parent position content = .ok (node, after)) :
    after.nodes.get? node.id = some node ∧ after.childList node.id = [] := by
  rcases saveNode_eq_ok.mp saved with ⟨stored, _, rfl, rfl⟩
  have fresh : before.lastNode < before.lastNode + 1 := by omega
  have absent := linked.get?_fresh fresh
  refine ⟨by simp, ?_⟩
  rw [childList_insertNode, if_neg, linked.childList_eq_nil absent]
  intro same
  rcases stored _ same with ⟨above, found⟩
  rw [absent] at found
  cases found

/-- Trees were added at the end of the children of a parent. -/
structure Planted (fits : Fields → ContentRef → Prop) (before : Records) (parent : NodeId)
    (position : Nat) (trees : List Sketch) (ids : List NodeId) (after : Records) : Prop where
  tidy : Tidy after
  grown : Grown (· = parent) before after
  list : after.childList parent = before.childList parent ++ ids
  places : ids.map after.position? = (List.range' position ids.length).map some
  mirrors : MirrorsAll after before.lastNode fits trees ids

namespace Planted

variable {fits fits' : Fields → ContentRef → Prop} {before middle after : Records}
  {parent : NodeId} {position : Nat} {first second : List Sketch} {ids ids' : List NodeId}

theorem nil (tidy : Tidy before) : Planted fits before parent position [] [] before where
  tidy := tidy
  grown := .refl
  list := (List.append_nil _).symm
  places := rfl
  mirrors := rfl

/-- Trees after trees; what the data of the first have to fit may change on the way. -/
theorem append (left : Planted fits before parent position first ids middle)
    (right : Planted fits' middle parent (position + ids.length) second ids' after)
    (linked : Linked before) (stored : ∃ above, before.nodes.get? parent = some above)
    (imp : ∀ data ref, fits data ref → fits' data ref) :
    Planted fits' before parent position (first ++ second) (ids ++ ids') after where
  tidy := right.tidy
  grown := left.grown.trans right.grown fun _ _ _ => id
  list := by rw [right.list, left.list, List.append_assoc]
  places := by
    have kept : ids.map after.position? = ids.map middle.position? := by
      apply List.map_congr_left
      intro id member
      have listed : id ∈ middle.childList parent := by
        rw [left.list]
        exact List.mem_append_right _ member
      rcases left.tidy.linked.owned listed with ⟨node, found, _⟩
      simp [position?, found, right.grown.nodes found]
    rw [List.map_append, kept, left.places, right.places, List.length_append,
      ← List.map_append, List.range'_append_1]
  mirrors := by
    rcases stored with ⟨above, found⟩
    have low := linked.numbered found
    refine (left.mirrors.grown left.tidy right.grown ?_ (Int.le_refl _) imp).append
      (right.mirrors.grown right.tidy (@Grown.refl _ fun _ => False) ?_
        left.grown.lastNode_le fun _ _ => id)
    · rintro id rfl
      exact low
    · exact fun _ impossible => impossible.elim

/-- The children of a parent that had none are those that were planted. -/
theorem orderedChildren (planted : Planted fits before parent 0 first ids after)
    (childless : before.childList parent = []) : after.orderedChildren parent = ids := by
  have list : after.childList parent = ids := by rw [planted.list, childless, List.nil_append]
  rw [← list]
  refine @orderedChildren_of_positions _ _ ids.length ?_
  rw [list, planted.places, List.range_eq_range']

/-- A new node together with everything that was planted below it. -/
theorem node {data : Fields} {ref : ContentRef} {trees : List Sketch} {node : Node}
    (tidy : Tidy before) (last : position = (before.childList parent).length)
    (saved : before.saveNode (some parent) position (some ref) = .ok (node, middle))
    (fit : fits data ref) (below : Planted fits middle node.id 0 trees ids after) :
    Planted fits before parent position [⟨data, trees⟩] [node.id] after := by
  rcases saveNode_eq_ok.mp saved with ⟨stored, _, rfl, rfl⟩
  rcases stored parent rfl with ⟨above, above_found⟩
  have low := tidy.linked.numbered above_found
  have fresh : before.lastNode < before.lastNode + 1 := by omega
  have absent := tidy.linked.get?_fresh fresh
  have first : Grown (· = parent) before
      (before.insertNode ⟨⟨before.lastNode + 1⟩, some parent, position, some ref⟩) :=
    .insertNode tidy.linked fresh (by simp)
  have found := below.grown.nodes (new_node tidy.linked saved).1
  have differ : parent ≠ ⟨before.lastNode + 1⟩ := by
    rintro rfl
    simp only at low
    omega
  refine ⟨below.tidy, first.trans below.grown ?_, ?_, ?_, ?_⟩
  · rintro id old old_found rfl
    rw [absent] at old_found
    cases old_found
  · rw [below.grown.lists (first.nodes above_found) differ, childList_insertNode, if_pos rfl]
  · simp [position?, found]
  · refine ⟨_, [], rfl, ⟨fresh, ⟨_, ref, found, rfl, fit⟩, ?_⟩, rfl⟩
    rw [below.orderedChildren]
    · exact below.mirrors.grown below.tidy (@Grown.refl _ fun _ => False)
        (fun _ impossible => impossible.elim) first.lastNode_le fun _ _ => id
    · exact (new_node tidy.linked saved).2

end Planted

/-- The address in the data of a part is that of the object. -/
def Stored (data : Fields) (ref : ContentRef) : Prop := storedRef data = .ok ref

mutual

theorem createNodes_spec {parent : NodeId} {position : Nat} : ∀ {tree : Sketch}
    {store after : Store}, createNodes parent position tree store = (.ok (), after) →
      Tidy store.records → position = (store.records.childList parent).length →
        ∃ id, Planted Stored store.records parent position [tree] [id] after.records
  | ⟨data, children⟩, store, after, done, tidy, last => by
      rcases bind_eq_ok.mp done with ⟨ref, first, given, done⟩
      rcases give_eq_ok.mp given with ⟨fit, rfl⟩
      rcases bind_eq_ok.mp done with ⟨node, second, saved, done⟩
      rcases saveNode_eq_ok.mp saved with ⟨records, saved_node, rfl⟩
      have tidy_node : Tidy records := by
        apply tidy.saveNode saved_node
        · intro id same
          rcases Option.some.inj same with rfl
          exact last
        · exact fun _ _ => ⟨ref, rfl⟩
      rcases new_node tidy.linked saved_node with ⟨stored, childless⟩
      rcases createNodesFrom_spec done tidy_node ⟨node, stored⟩ (by rw [childless]; rfl) with
        ⟨ids, below⟩
      exact ⟨node.id, .node tidy last saved_node fit below⟩

theorem createNodesFrom_spec {parent : NodeId} {position : Nat} : ∀ {trees : List Sketch}
    {store after : Store}, createNodesFrom parent position trees store = (.ok (), after) →
      Tidy store.records → (∃ above, store.records.nodes.get? parent = some above) →
        position = (store.records.childList parent).length →
          ∃ ids, Planted Stored store.records parent position trees ids after.records
  | [], store, after, done, tidy, _, _ => by
      rcases pure_eq_ok.mp done with ⟨_, rfl⟩
      exact ⟨[], .nil tidy⟩
  | tree :: rest, store, after, done, tidy, stored, last => by
      rcases bind_eq_ok.mp done with ⟨_, middle, here, done⟩
      rcases createNodes_spec here tidy last with ⟨id, first⟩
      rcases stored with ⟨above, found⟩
      have next : position + 1 = (middle.records.childList parent).length := by
        rw [first.list, List.length_append, ← last]
        rfl
      rcases createNodesFrom_spec done first.tidy ⟨above, first.grown.nodes found⟩ next with
        ⟨ids, others⟩
      exact ⟨id :: ids, first.append others tidy.linked ⟨above, found⟩
        fun _ _ fit => fit⟩

end

end RuleTree.Creation
