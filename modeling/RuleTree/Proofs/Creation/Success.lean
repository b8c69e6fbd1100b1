import RuleTree.Proofs.Creation.Create

/-!
# When creating a block succeeds

A block can be created where the checks pass, every part of it describes an object, and the numbers
of the new objects are 64-bit words (`Creation.exists_create`).  Nothing else can go wrong, since
each node is stored after its parent and after its object.
-/

namespace RuleTree.Creation

open Step Store Records

variable {functions : Option Library} {store : Store} {records before middle after : Records}

/-! ## Objects -/

/-- The data name no object, and an object can be made of them. -/
structure Ready (functions : Option Library) (data : Fields) : Prop where
  no_object : Entries.get? "object_id" data = none
  described : ∃ kind content, kindOf data = .ok kind ∧ contentOf functions kind data = .ok content

/-- The data name an object that is stored. -/
def Addressed (records : Records) (data : Fields) : Prop :=
  ∃ ref content, Stored data ref ∧ records.objects.get? ref = some content

theorem Addressed.grown {opened : NodeId → Prop} {data : Fields}
    (addressed : Addressed before data) (grown : Grown opened before after) :
    Addressed after data := by
  rcases addressed with ⟨ref, content, named, stored⟩
  exact ⟨ref, content, named, grown.objects stored⟩

/-- Data that name a kind are not those of a block. -/
theorem not_block_of_kindOf {data : Fields} (known : ∃ kind, kindOf data = .ok kind)
    (children : List Sketch) : Sketch.isBlock ⟨data, children⟩ = false := by
  rcases known with ⟨kind, kind_eq⟩
  unfold kindOf at kind_eq
  unfold Sketch.isBlock Sketch.get?
  cases tag : Entries.get? "content_type" data with
  | none =>
      rw [tag] at kind_eq
      cases kind_eq
  | some json => rfl

theorem Ready.kindOf {data : Fields} (ready : Ready functions data) :
    ∃ kind, kindOf data = .ok kind := by
  rcases ready.described with ⟨kind, _, kind_eq, _⟩
  exact ⟨kind, kind_eq⟩

theorem exists_createContent {data : Fields} (ready : Ready functions data) :
    ∃ ref content, createContent functions data store = (.ok (ref, storedData ref data),
      { store with records := store.records.insertObject ref content }) ∧
        ref = ⟨content.kind, ⟨store.records.lastObject + 1⟩⟩ := by
  rcases ready.described with ⟨kind, content, kind_eq, described⟩
  refine ⟨_, content, ?_, rfl⟩
  refine bind_eq_ok.mpr ⟨kind, store, give_eq_ok.mpr ⟨kind_eq, rfl⟩, ?_⟩
  simp only [ready.no_object, Option.bind_none]
  refine bind_eq_ok.mpr ⟨content, store, give_eq_ok.mpr ⟨described, rfl⟩, ?_⟩
  exact bind_eq_ok.mpr ⟨_, _, saveObject_eq_ok.mpr ⟨rfl, rfl⟩, rfl⟩

/-- The numbers up to the last one are 64-bit words. -/
theorem inRange_of_le {bound n : Int} (room : Word.InRange bound) (positive : 0 ≤ n)
    (le : n ≤ bound) : Word.InRange n := by
  unfold Word.InRange at room ⊢
  omega

mutual

/-- The objects of a tree can be stored as long as there is room for their numbers. -/
theorem exists_createContents : ∀ {tree : Sketch} {store : Store},
    (∀ part ∈ tree.walk, Ready functions part.data) → Tidy store.records →
      Word.InRange (store.records.lastObject + tree.walk.length) →
        ∃ tree' after, createContents functions tree store = (.ok tree', after) ∧
          after.records.lastObject = store.records.lastObject + tree.walk.length ∧
            ∀ part ∈ tree'.walk, Addressed after.records part.data
  | ⟨data, children⟩, store, ready, tidy, room => by
      have own : Ready functions data := ready _ (List.mem_cons_self ..)
      have below : ∀ part ∈ Sketch.walkAll children, Ready functions part.data :=
        fun part member => ready part (List.mem_cons_of_mem _ member)
      have counted := tidy.linked.counted
      simp only [Sketch.walk, List.length_cons, Int.natCast_add, Int.cast_ofNat_Int] at room ⊢
      rcases exists_createAllContents below tidy (inRange_of_le room (by omega) (by omega)) with
        ⟨children', middle, done, last, addressed⟩
      have tidy_middle := (createAllContents_objectsOnly done).tidy tidy
      rcases @exists_createContent functions middle data own with ⟨ref, content, created, ref_eq⟩
      have saved : ObjectsOnly middle.records (middle.records.insertObject ref content) := by
        rw [ref_eq]
        exact .saveObject middle.records content
      have grown : Grown (fun _ => False) middle.records
          (middle.records.insertObject ref content) := saved.grown tidy_middle
      have number : ref.id.val = middle.records.lastObject + 1 := by rw [ref_eq]
      have last' : (middle.records.insertObject ref content).lastObject = ref.id.val :=
        lastObject_insertObject _ _ _ (by omega)
      refine ⟨⟨storedData ref data, children'⟩,
        { middle with records := middle.records.insertObject ref content }, ?_, ?_, ?_⟩
      · refine bind_eq_ok.mpr ⟨_, _, done, ?_⟩
        rw [if_neg (by simp [not_block_of_kindOf own.kindOf children'])]
        exact bind_eq_ok.mpr ⟨_, _, created, rfl⟩
      · show (middle.records.insertObject ref content).lastObject = _
        rw [last', number, last]
        omega
      · intro part member
        rcases List.mem_cons.mp member with rfl | later
        · refine ⟨ref, content, ?_, by simp⟩
          show storedRef (storedData ref data) = .ok ref
          rw [storedRef_storedData, if_pos]
          exact inRange_of_le room (by omega) (by omega)
        · exact (addressed part later).grown grown

theorem exists_createAllContents : ∀ {trees : List Sketch} {store : Store},
    (∀ part ∈ Sketch.walkAll trees, Ready functions part.data) → Tidy store.records →
      Word.InRange (store.records.lastObject + (Sketch.walkAll trees).length) →
        ∃ trees' after, createAllContents functions trees store = (.ok trees', after) ∧
          after.records.lastObject =
            store.records.lastObject + (Sketch.walkAll trees).length ∧
              ∀ part ∈ Sketch.walkAll trees', Addressed after.records part.data
  | [], store, _, _, _ => by
      refine ⟨[], store, rfl, by simp [Sketch.walkAll], ?_⟩
      intro part impossible
      cases impossible
  | tree :: rest, store, ready, tidy, room => by
      have counted := tidy.linked.counted
      simp only [Sketch.walkAll, List.length_append, Int.natCast_add] at room ⊢
      rcases exists_createContents
        (fun part member => ready part (List.mem_append_left _ member)) tidy
        (inRange_of_le room (by omega) (by omega)) with ⟨tree', middle, here, last, addressed⟩
      have tidy_middle := (createContents_objectsOnly here).tidy tidy
      rcases exists_createAllContents
        (fun part member => ready part (List.mem_append_right _ member)) tidy_middle
        (by rw [last]; exact inRange_of_le room (by omega) (by omega)) with
        ⟨rest', after, others, last', addressed'⟩
      have grown : Grown (fun _ => False) middle.records after.records :=
        (createAllContents_objectsOnly others).grown tidy_middle
      refine ⟨tree' :: rest', after, bind_eq_ok.mpr ⟨_, _, here,
        bind_eq_ok.mpr ⟨_, _, others, rfl⟩⟩, by omega, ?_⟩
      intro part member
      rcases List.mem_append.mp member with first | later
      · exact (addressed part first).grown grown
      · exact addressed' part later

end

/-! ## Nodes -/

/-- The same objects, and all nodes that were stored before. -/
structure Extended (before after : Records) : Prop where
  objects : after.objects = before.objects
  nodes : ∀ {id node}, before.nodes.get? id = some node →
    ∃ node', after.nodes.get? id = some node'

theorem Extended.refl : Extended records records := ⟨rfl, fun found => ⟨_, found⟩⟩

theorem Extended.trans (first : Extended before middle) (second : Extended middle after) :
    Extended before after where
  objects := second.objects.trans first.objects
  nodes found := by
    rcases first.nodes found with ⟨node, found⟩
    exact second.nodes found

theorem Addressed.extended {data : Fields} (addressed : Addressed before data)
    (extended : Extended before after) : Addressed after data := by
  rcases addressed with ⟨ref, content, named, stored⟩
  exact ⟨ref, content, named, extended.objects ▸ stored⟩

/-- A node can be stored as soon as its parent and its object are. -/
theorem exists_saveNode {parent : Option NodeId} {position : Nat} {wraps : Option ContentRef}
    (below : ∀ id, parent = some id → ∃ node, store.records.nodes.get? id = some node)
    (stored : ∀ ref, wraps = some ref → ∃ content, store.records.objects.get? ref = some content) :
    ∃ node after, saveNode parent position wraps store = (.ok node, after) ∧
      Extended store.records after.records ∧ after.records.nodes.get? node.id = some node := by
  refine ⟨_, _, saveNode_eq_ok.mpr
    ⟨_, Records.saveNode_eq_ok.mpr ⟨below, stored, rfl, rfl⟩, rfl⟩, ⟨rfl, ?_⟩, by simp⟩
  intro id node found
  rw [get?_insertNode]
  split
  · exact ⟨_, rfl⟩
  · exact ⟨node, found⟩

theorem exists_saveChild {parent : NodeId} {position : Nat} {ref : ContentRef} {above : Node}
    {content : Content} (found : store.records.nodes.get? parent = some above)
    (stored : store.records.objects.get? ref = some content) :
    ∃ node after, saveNode (some parent) position (some ref) store = (.ok node, after) ∧
      Extended store.records after.records ∧ after.records.nodes.get? node.id = some node := by
  apply exists_saveNode
  · rintro id ⟨⟩
    exact ⟨above, found⟩
  · rintro other ⟨⟩
    exact ⟨content, stored⟩

mutual

theorem exists_createNodes {parent : NodeId} {position : Nat} : ∀ {tree : Sketch} {store : Store},
    (∀ part ∈ tree.walk, Addressed store.records part.data) →
      (∃ above, store.records.nodes.get? parent = some above) →
        ∃ after, createNodes parent position tree store = (.ok (), after) ∧
          Extended store.records after.records
  | ⟨data, children⟩, store, addressed, ⟨above, found⟩ => by
      rcases addressed _ (List.mem_cons_self ..) with ⟨ref, content, named, stored⟩
      rcases @exists_saveChild store _ position _ _ _ found stored with
        ⟨node, middle, saved, extended, own⟩
      have addressed_below : ∀ part ∈ Sketch.walkAll children,
          Addressed middle.records part.data :=
        fun part member => (addressed part (List.mem_cons_of_mem _ member)).extended extended
      rcases @exists_createNodesFrom node.id 0 _ _ addressed_below ⟨node, own⟩ with
        ⟨after, created, extended'⟩
      exact ⟨after, bind_eq_ok.mpr ⟨ref, store, give_eq_ok.mpr ⟨named, rfl⟩,
        bind_eq_ok.mpr ⟨node, middle, saved, created⟩⟩, extended.trans extended'⟩

theorem exists_createNodesFrom {parent : NodeId} {position : Nat} : ∀ {trees : List Sketch}
    {store : Store}, (∀ part ∈ Sketch.walkAll trees, Addressed store.records part.data) →
      (∃ above, store.records.nodes.get? parent = some above) →
        ∃ after, createNodesFrom parent position trees store = (.ok (), after) ∧
          Extended store.records after.records
  | [], store, _, _ => ⟨store, rfl, .refl⟩
  | tree :: rest, store, addressed, ⟨above, found⟩ => by
      rcases @exists_createNodes parent position tree store
        (fun part member => addressed part (List.mem_append_left _ member)) ⟨above, found⟩ with
        ⟨middle, here, extended⟩
      have addressed_rest : ∀ part ∈ Sketch.walkAll rest, Addressed middle.records part.data :=
        fun part member => (addressed part (List.mem_append_right _ member)).extended extended
      rcases @exists_createNodesFrom parent (position + 1) _ _ addressed_rest
        (extended.nodes found) with ⟨after, others, extended'⟩
      exact ⟨after, bind_eq_ok.mpr ⟨(), middle, here, others⟩, extended.trans extended'⟩

end

/-! ## Definitions -/

theorem exists_defineNames {names : Names} (fresh : List String) :
    ∃ result parts after, defineNames names fresh store = (.ok (result, parts), after) ∧
      after.records.lastObject = store.records.lastObject + fresh.length := by
  induction fresh generalizing names store with
  | nil => exact ⟨names, [], store, rfl, by simp⟩
  | cons name rest ih =>
      let saved := store.records.insertObject ⟨.definition, ⟨store.records.lastObject + 1⟩⟩
        (.definition name none)
      have number : saved.lastObject = store.records.lastObject + 1 :=
        lastObject_insertObject _ _ _ (by simp only; omega)
      rcases @ih { store with records := saved }
        (names.insert name ⟨store.records.lastObject + 1⟩) with
        ⟨result, parts, after, defined, last⟩
      refine ⟨result, _, after, bind_eq_ok.mpr ⟨_, _, saveObject_eq_ok.mpr ⟨rfl, rfl⟩,
        bind_eq_ok.mpr ⟨_, _, defined, rfl⟩⟩, ?_⟩
      simp only [number] at last
      rw [last]
      simp only [List.length_cons, Int.natCast_add, Int.cast_ofNat_Int]
      omega

/-- The part of a definition names the object, so that none is stored. -/
theorem createContent_definitionSketch {ref : ContentRef} {name : String}
    (range : Word.InRange ref.id.val) :
    createContent functions (definitionSketch ref name).data store =
      (.ok (ref, storedData ref (definitionSketch ref name).data), store) := by
  refine bind_eq_ok.mpr ⟨ref.kind, store,
    give_eq_ok.mpr ⟨kindOf_definitionSketch ref name, rfl⟩, ?_⟩
  simp only [get?_definitionSketch, Option.bind_some, asInt?_int, if_pos range]
  exact bind_eq_ok.mpr ⟨ref, store, rfl, rfl⟩

theorem exists_createDefinitions {parent : NodeId} {position : Nat} {parts : List Sketch}
    (given : ∀ part ∈ parts, ∃ name, DefinitionPart store.records name part)
    (range : ∀ ref content, store.records.objects.get? ref = some content →
      Word.InRange ref.id.val)
    (below : ∃ above, store.records.nodes.get? parent = some above) :
    ∃ after, createDefinitions functions parent position parts store = (.ok (), after) ∧
      Extended store.records after.records := by
  induction parts generalizing position store with
  | nil => exact ⟨store, rfl, .refl⟩
  | cons part rest ih =>
      rcases given part (by simp) with ⟨name, ref, rfl, kind, stored⟩
      rcases below with ⟨above, found⟩
      have created := @createContent_definitionSketch functions store ref name (range _ _ stored)
      rcases @exists_saveChild store _ position _ _ _ found stored with
        ⟨node, middle, saved, extended, _⟩
      have given_rest : ∀ part ∈ rest, ∃ name, DefinitionPart middle.records name part := by
        intro part member
        rcases given part (by simp [member]) with ⟨name, other, same, kind, stored⟩
        exact ⟨name, other, same, kind, extended.objects ▸ stored⟩
      rcases @ih middle (position + 1) given_rest
        (fun other content found => range other content (extended.objects ▸ found))
        (extended.nodes found) with ⟨after, others, extended'⟩
      refine ⟨after, ?_, extended.trans extended'⟩
      exact bind_eq_ok.mpr ⟨_, store, created, bind_eq_ok.mpr ⟨node, middle, saved, others⟩⟩

/-! ## Blocks -/

/-- How many objects creating a block stores: one for each name and one for each part. -/
def blockSize (statements : List Sketch) : Nat :=
  (newNames .empty (.block statements)).length + (Sketch.walkAll statements).length

/-- Some names have definitions whose numbers are 64-bit words. -/
def Bound (names : Names) (used : List String) : Prop :=
  ∀ name ∈ used, ∃ id, names.get? name = some id ∧ Word.InRange id.val

theorem bound_of_defines {names : Names} {fresh : List String} {parts : List Sketch} {last : Int}
    (defines : Defines before .empty fresh names parts after) (linked : Linked after)
    (counted : 0 ≤ before.lastObject) (room : Word.InRange last) (le : after.lastObject ≤ last) :
    Bound names fresh := by
  intro name member
  rcases defines.own name member with ⟨id, found, above, stored⟩
  have number : id.val ≤ after.lastObject := (linked.addressed stored).1
  exact ⟨id, found, inRange_of_le room (by omega) (by omega)⟩

theorem exists_createTree {parts statements : List Sketch} (linked : Linked store.records)
    (room : Word.InRange store.records.lastObject)
    (given : ∀ part ∈ parts, ∃ name, DefinitionPart store.records name part)
    (addressed : ∀ part ∈ Sketch.walkAll statements, Addressed store.records part.data) :
    ∃ root after, createTree functions parts (.block statements) store = (.ok root, after) := by
  rcases @exists_saveNode store none 0 none (by simp) (by simp) with
    ⟨root, first, saved, extended, own⟩
  have range : ∀ ref content, first.records.objects.get? ref = some content →
      Word.InRange ref.id.val := by
    intro ref content found
    rw [extended.objects] at found
    have positive := linked.positive found
    exact inRange_of_le room (by omega) (linked.addressed found).1
  have given_first : ∀ part ∈ parts, ∃ name, DefinitionPart first.records name part := by
    intro part member
    rcases given part member with ⟨name, ref, same, kind, stored⟩
    exact ⟨name, ref, same, kind, extended.objects ▸ stored⟩
  rcases @exists_createDefinitions functions first root.id 0 parts given_first range ⟨root, own⟩
    with ⟨second, defined, extended'⟩
  rcases @exists_createNodesFrom root.id parts.length statements second
    (fun part member => ((addressed part member).extended extended).extended extended')
    (extended'.nodes own) with ⟨after, created, _⟩
  refine ⟨root, after, ?_⟩
  have block : (Sketch.block statements).isBlock = true := rfl
  unfold createTree
  rw [if_pos block]
  exact bind_eq_ok.mpr ⟨root, first, saved, bind_eq_ok.mpr ⟨(), second, defined,
    bind_eq_ok.mpr ⟨(), after, created, rfl⟩⟩⟩

/-- Each name of a block can be given a definition whose number is a 64-bit word. -/
theorem exists_bound {statements : List Sketch} (tidy : Tidy store.records)
    (room : Word.InRange (store.records.lastObject + blockSize statements)) :
    ∃ names parts first,
      defineNames .empty (newNames .empty (.block statements)) store =
        (.ok (names, parts), first) ∧
      first.records.lastObject =
        store.records.lastObject + (newNames .empty (.block statements)).length ∧
      Bound names (newNames .empty (.block statements)) := by
  rcases @exists_defineNames store .empty (newNames .empty (.block statements)) with
    ⟨names, parts, first, defined, last⟩
  have counted := tidy.linked.counted
  simp only [blockSize, Int.natCast_add] at room
  have tidy_first := (defineNames_objectsOnly defined).tidy tidy
  exact ⟨names, parts, first, defined, last, bound_of_defines (defineNames_spec defined tidy)
    tidy_first.linked counted room (by omega)⟩

/-- Where its names are bound, the block passes the checks and describes objects, a block can be
created as long as there is room for the numbers of the objects. -/
theorem exists_create {statements : List Sketch} (tidy : Tidy store.records)
    (checked : ∀ names,
      check functions true ((Sketch.block statements).mapData (bindData names)) = .ok ())
    (ready : ∀ names, Bound names (newNames .empty (.block statements)) →
      ∀ part ∈ Sketch.walkAll statements, Ready functions (bindData names part.data))
    (room : Word.InRange (store.records.lastObject + blockSize statements)) :
    ∃ root after, create functions (.block statements) none store = (.ok root, after) := by
  rcases exists_bound tidy room with ⟨names, parts, first, defined, last, bound⟩
  have counted := tidy.linked.counted
  simp only [blockSize, Int.natCast_add] at room
  have defines := defineNames_spec defined tidy
  have tidy_first := (defineNames_objectsOnly defined).tidy tidy
  have ready_bound : ∀ part ∈ Sketch.walkAll (Sketch.mapDataAll (bindData names) statements),
      Ready functions part.data := by
    intro part member
    rw [walkAll_mapDataAll] at member
    rcases List.mem_map.mp member with ⟨own, own_mem, rfl⟩
    rw [data_mapData]
    exact ready names bound own own_mem
  have size : (Sketch.walkAll (Sketch.mapDataAll (bindData names) statements)).length =
      (Sketch.walkAll statements).length := by
    rw [walkAll_mapDataAll, List.length_map]
  rcases @exists_createAllContents functions _ first ready_bound tidy_first
    (by rw [size, last]; exact inRange_of_le room (by omega) (by omega)) with
    ⟨contents, second, stored, last', addressed⟩
  have objects := createAllContents_objectsOnly stored
  have grown : Grown (fun _ => False) first.records second.records := objects.grown tidy_first
  rw [size, last] at last'
  rcases @exists_createTree functions second parts contents (objects.tidy tidy_first).linked
    (inRange_of_le room (by omega) (by omega))
    (fun part member => ((defines.grown grown).given part member).2) addressed with
    ⟨root, after, created⟩
  refine ⟨root, after, ?_⟩
  refine bind_eq_ok.mpr ⟨[], store, give_eq_ok.mpr ⟨rfl, rfl⟩, transaction_eq_ok.mpr ?_⟩
  refine bind_eq_ok.mpr ⟨_, first, bind_eq_ok.mpr ⟨.empty, store, rfl,
    bind_eq_ok.mpr ⟨_, first, defined, rfl⟩⟩, ?_⟩
  refine bind_eq_ok.mpr ⟨(), first, give_eq_ok.mpr ⟨checked names, rfl⟩, ?_⟩
  exact bind_eq_ok.mpr ⟨.block contents, second, bind_eq_ok.mpr ⟨contents, second, stored, rfl⟩,
    created⟩

end RuleTree.Creation
