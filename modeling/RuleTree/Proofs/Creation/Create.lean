import RuleTree.Proofs.Creation.Objects

/-!
# What creating a tree does

A sketch that was created stands in the store below its new root (`Creation.create_spec`): what the
sketch says about each part is what the object of the node is, with the definitions of the names in
place of the names.  A block has one more child for each new definition, before its statements.
Whatever the sketch was, tidy records stay tidy (`Creation.tidy_create`).
-/

namespace RuleTree.Creation

open Step Store Records

variable {functions : Option Library} {store after : Store}

/-- The object is a definition. -/
def IsDefinition (records : Records) (_ : Fields) (ref : ContentRef) : Prop :=
  ∃ name, records.objects.get? ref = some (.definition name none)

namespace Planted

variable {fits fits' : Fields → ContentRef → Prop} {before middle after : Records}
  {parent : NodeId} {position : Nat} {trees : List Sketch} {ids : List NodeId}

theorem imp (planted : Planted fits before parent position trees ids after)
    (weaker : ∀ data ref, fits data ref → fits' data ref) :
    Planted fits' before parent position trees ids after where
  tidy := planted.tidy
  grown := planted.grown
  list := planted.list
  places := planted.places
  mirrors := planted.mirrors.grown planted.tidy (@Grown.refl _ fun _ => False)
    (fun _ impossible => impossible.elim) (Int.le_refl _) weaker

/-- Objects that were stored before the planting do not matter to it. -/
theorem after_objects (planted : Planted fits middle parent position trees ids after)
    (objects : ObjectsOnly before middle) (tidy : Tidy before) :
    Planted fits before parent position trees ids after where
  tidy := planted.tidy
  grown := (objects.grown tidy).trans planted.grown fun _ _ _ same => same
  list := by rw [planted.list, childList, childList, objects.children]
  places := planted.places
  mirrors := objects.lastNode ▸ planted.mirrors

end Planted

/-- The part of a new definition leads to a node that wraps a definition. -/
theorem createContent_definition {records : Records} {name : String} {part : Sketch}
    {ref : ContentRef} {left : Fields} (given : DefinitionPart records name part)
    (grown : ∀ ref content, records.objects.get? ref = some content →
      store.records.objects.get? ref = some content)
    (done : createContent functions part.data store = (.ok (ref, left), after)) :
    after.records.objects.get? ref = some (.definition name none) := by
  rcases given with ⟨own, rfl, kind, stored⟩
  have named : Entries.get? "name" (definitionSketch own name).data = some (.str name) := by
    simp [definitionSketch, Entries.get?_insert]
  rcases createContent_spec done with ⟨_, _, kind_eq, created⟩
  rw [kindOf_definitionSketch, kind] at kind_eq
  have ref_kind := (Except.ok.inj kind_eq).symm
  rcases created with ⟨same, rfl⟩ | ⟨_, content, described, object⟩
  · have ids : own.id.val = ref.id.val := by
      rw [get?_definitionSketch, Option.bind_some, asInt?_int] at same
      split at same
      · exact Option.some.inj same
      · cases same
    have refs : own = ref := by
      rcases own with ⟨_, ⟨_⟩⟩
      rcases ref with ⟨_, ⟨_⟩⟩
      simp only at kind ref_kind ids
      subst kind ref_kind ids
      rfl
    exact refs ▸ grown _ _ stored
  · rw [ref_kind] at described
    simp only [contentOf, require, named, Json.asStr?] at described
    cases described
    exact object

theorem createDefinitions_spec {parent : NodeId} {position : Nat} {parts : List Sketch}
    (done : createDefinitions functions parent position parts store = (.ok (), after))
    (tidy : Tidy store.records)
    (stored : ∃ above, store.records.nodes.get? parent = some above)
    (last : position = (store.records.childList parent).length)
    (given : ∀ part ∈ parts, part.children = [] ∧ ∃ name, DefinitionPart store.records name part) :
    ∃ ids, Planted (IsDefinition after.records) store.records parent position parts ids
      after.records := by
  induction parts generalizing position store with
  | nil =>
      rcases pure_eq_ok.mp done with ⟨_, rfl⟩
      exact ⟨[], .nil tidy⟩
  | cons part rest ih =>
      rcases bind_eq_ok.mp done with ⟨⟨ref, left⟩, first, created, done⟩
      rcases bind_eq_ok.mp done with ⟨node, second, saved, done⟩
      rcases saveNode_eq_ok.mp saved with ⟨records, saved_node, rfl⟩
      rcases given part (by simp) with ⟨childless, name, part_given⟩
      rcases stored with ⟨above, found⟩
      have objects := (createContent_spec created).1
      have object := createContent_definition part_given (fun _ _ same => same) created
      have tidy_first := objects.tidy tidy
      have tidy_node : Tidy records := by
        apply tidy_first.saveNode saved_node
        · intro id same
          rcases Option.some.inj same with rfl
          rw [last, childList, childList, objects.children]
        · exact fun _ _ => ⟨ref, rfl⟩
      have here : Planted (IsDefinition records) store.records parent position [part] [node.id]
          records := by
        refine Planted.after_objects ?_ objects tidy
        rcases part with ⟨data, children⟩
        subst childless
        refine .node tidy_first ?_ saved_node ?_ (.nil tidy_node)
        · rw [last, childList, childList, objects.children]
        · rcases Records.saveNode_eq_ok.mp saved_node with ⟨_, _, _, rfl⟩
          exact ⟨name, object⟩
      have next : position + 1 = (records.childList parent).length := by
        rw [here.list, List.length_append, ← last]
        rfl
      have given_rest : ∀ other ∈ rest, other.children = [] ∧
          ∃ name, DefinitionPart records name other := by
        intro other member
        rcases given other (by simp [member]) with
          ⟨other_childless, other_name, other_ref, same, kind, other_stored⟩
        exact ⟨other_childless, other_name, other_ref, same, kind, here.grown.objects other_stored⟩
      rcases ih done tidy_node ⟨above, here.grown.nodes found⟩ next given_rest with ⟨ids, others⟩
      refine ⟨node.id :: ids, here.append others tidy.linked ⟨above, found⟩ ?_⟩
      rintro _ other ⟨other_name, other_stored⟩
      exact ⟨other_name, others.grown.objects other_stored⟩

/-! ## Trees -/

/-- The root of a stored sketch: a block has its definitions and then its statements as children;
any other tree has just the shape of the sketch. -/
structure Rooted (records : Records) (floor : Int) (fits : Fields → ContentRef → Prop)
    (parts : List Sketch) (tree : Sketch) (root : Node) : Prop where
  stored : records.nodes.get? root.id = some root
  isRoot : root.parent = none
  block : tree.isBlock = true → root.content = none ∧ ∃ heads ids,
    records.orderedChildren root.id = heads ++ ids ∧
      MirrorsAll records floor (IsDefinition records) parts heads ∧
        MirrorsAll records floor fits tree.children ids
  single : tree.isBlock = false → Mirrors records floor fits tree root.id

/-- A root that was just saved. -/
structure NewRoot (before : Records) (root : Node) (content : Option ContentRef)
    (after : Records) : Prop where
  tidy : Tidy after
  stored : after.nodes.get? root.id = some root
  childless : after.childList root.id = []
  isRoot : root.parent = none
  content : root.content = content
  fresh : before.lastNode < root.id.val
  last : after.lastNode = root.id.val
  grown : Grown (fun _ => False) before after
  unopened : ∀ id node, before.nodes.get? id = some node → ¬id = root.id

theorem newRoot {before after : Records} {root : Node} {content : Option ContentRef}
    (tidy : Tidy before) (saved : before.saveNode none 0 content = .ok (root, after)) :
    NewRoot before root content after := by
  have tidy_root : Tidy after := tidy.saveNode saved
    (fun _ impossible => by cases impossible) fun _ impossible => by cases impossible
  rcases new_node tidy.linked saved with ⟨stored, childless⟩
  rcases Records.saveNode_eq_ok.mp saved with ⟨_, _, root_eq, rfl⟩
  have fresh : before.lastNode < root.id.val := by
    rw [root_eq]
    simp only
    omega
  have isRoot : root.parent = none := by rw [root_eq]
  refine
    { tidy := tidy_root, stored, childless, isRoot, content := by rw [root_eq], fresh
      last := lastNode_insertNode _ _ fresh
      grown := .insertNode tidy.linked fresh fun _ above => by rw [isRoot] at above; cases above
      unopened := ?_ }
  rintro id node found rfl
  have bound := tidy.linked.numbered found
  omega

theorem createTree_spec {parts : List Sketch} {tree : Sketch} {root : Node}
    (done : createTree functions parts tree store = (.ok root, after))
    (tidy : Tidy store.records)
    (given : ∀ part ∈ parts, part.children = [] ∧ ∃ name, DefinitionPart store.records name part) :
    Tidy after.records ∧ Grown (fun _ => False) store.records after.records ∧
      Rooted after.records store.records.lastNode Stored parts tree root := by
  unfold createTree at done
  by_cases block : tree.isBlock = true
  · simp only [block, if_true] at done
    rcases bind_eq_ok.mp done with ⟨root', first, saved, done⟩
    rcases saveNode_eq_ok.mp saved with ⟨records, saved_root, rfl⟩
    rcases bind_eq_ok.mp done with ⟨_, second, defined, done⟩
    rcases bind_eq_ok.mp done with ⟨_, third, created, done⟩
    rcases pure_eq_ok.mp done with ⟨rfl, rfl⟩
    have new := newRoot tidy saved_root
    have objects : records.objects = store.records.objects := by
      rcases Records.saveNode_eq_ok.mp saved_root with ⟨_, _, _, rfl⟩
      rfl
    have start : 0 = (records.childList root'.id).length := by
      rw [new.childless]
      rfl
    have still_given : ∀ part ∈ parts, part.children = [] ∧
        ∃ name, DefinitionPart records name part := by
      simpa only [DefinitionPart, objects] using given
    rcases createDefinitions_spec defined new.tidy ⟨root', new.stored⟩ start still_given with
      ⟨heads, first⟩
    have count : parts.length = (second.records.childList root'.id).length := by
      rw [first.list, new.childless, List.nil_append, first.mirrors.length_eq]
    rcases createNodesFrom_spec created first.tidy ⟨root', first.grown.nodes new.stored⟩ count with
      ⟨ids, others⟩
    have both : Planted (fun _ _ => True) records root'.id 0 (parts ++ tree.children)
        (heads ++ ids) third.records := by
      have others := others.imp fun _ _ _ => trivial
      rw [← first.mirrors.length_eq, ← Nat.zero_add heads.length] at others
      exact first.append others new.tidy.linked ⟨root', new.stored⟩ fun _ _ _ => trivial
    refine ⟨others.tidy, new.grown.trans both.grown new.unopened,
      both.grown.nodes new.stored, new.isRoot, fun _ => ⟨new.content, heads, ids,
        both.orderedChildren new.childless, ?_, ?_⟩, by simp [block]⟩
    · refine first.mirrors.grown first.tidy others.grown ?_ new.grown.lastNode_le ?_
      · rintro id rfl
        exact Int.le_of_eq new.last.symm
      · rintro _ ref ⟨name, found⟩
        exact ⟨name, others.grown.objects found⟩
    · exact others.mirrors.grown others.tidy (@Grown.refl _ fun _ => False)
        (fun _ impossible => impossible.elim)
        (Int.le_trans new.grown.lastNode_le first.grown.lastNode_le) fun _ _ fit => fit
  · rcases tree with ⟨data, children⟩
    simp only [block] at done
    rcases bind_eq_ok.mp done with ⟨ref, zeroth, given_ref, done⟩
    rcases give_eq_ok.mp given_ref with ⟨fit, rfl⟩
    rcases bind_eq_ok.mp done with ⟨root', first, saved, done⟩
    rcases saveNode_eq_ok.mp saved with ⟨records, saved_root, rfl⟩
    rcases bind_eq_ok.mp done with ⟨_, third, created, done⟩
    rcases pure_eq_ok.mp done with ⟨rfl, rfl⟩
    have new := newRoot tidy saved_root
    rcases createNodesFrom_spec created new.tidy ⟨root', new.stored⟩
        (by rw [new.childless]; rfl) with ⟨ids, below⟩
    have stored := below.grown.nodes new.stored
    refine ⟨below.tidy, new.grown.trans below.grown new.unopened, stored, new.isRoot,
      fun impossible => absurd impossible block,
      fun _ => ⟨new.fresh, ⟨root', ref, stored, new.content, fit⟩, ?_⟩⟩
    rw [below.orderedChildren new.childless]
    exact below.mirrors.grown below.tidy (@Grown.refl _ fun _ => False)
      (fun _ impossible => impossible.elim) new.grown.lastNode_le fun _ _ fit => fit

/-! ## Whole creations -/

/-- Apart from the name and the definition of a variable, bound data are as they were. -/
theorem get?_bindData (names : Names) (data : Fields) {key : String} (not_name : key ≠ "name")
    (not_definition : key ≠ "definition_id") :
    Entries.get? key (bindData names data) = Entries.get? key data := by
  unfold bindData
  split
  · rw [Entries.get?_insert, if_neg (Ne.symm not_definition), Entries.get?_erase,
      if_neg (Ne.symm not_name)]
  · rfl

mutual

theorem walk_mapData {change : Fields → Fields} : ∀ tree : Sketch,
    (tree.mapData change).walk = tree.walk.map (Sketch.mapData change)
  | ⟨data, children⟩ => by
      rw [Sketch.mapData, Sketch.walk, Sketch.walk, walkAll_mapDataAll, List.map_cons,
        Sketch.mapData]

theorem walkAll_mapDataAll {change : Fields → Fields} : ∀ trees : List Sketch,
    Sketch.walkAll (Sketch.mapDataAll change trees) =
      (Sketch.walkAll trees).map (Sketch.mapData change)
  | [] => rfl
  | tree :: rest => by
      rw [Sketch.mapDataAll, Sketch.walkAll, Sketch.walkAll, walk_mapData, walkAll_mapDataAll,
        List.map_append]

end

theorem data_mapData (change : Fields → Fields) (tree : Sketch) :
    (tree.mapData change).data = change tree.data := by
  rcases tree with ⟨data, children⟩
  rfl

/-- Binding variables gives no part an address. -/
theorem plain_mapData {names : Names} {tree : Sketch}
    (plain : ∀ part ∈ tree.walk, part.get? "object_id" = none) :
    ∀ part ∈ (tree.mapData (bindData names)).walk, part.get? "object_id" = none := by
  intro part member
  rw [walk_mapData] at member
  rcases List.mem_map.mp member with ⟨before, before_mem, rfl⟩
  have own : Entries.get? "object_id" before.data = none := plain before before_mem
  rw [Sketch.get?, data_mapData, get?_bindData names before.data (by decide) (by decide), own]

theorem Defines.grown {before middle after : Records} {opened : NodeId → Prop}
    {known names : Names} {fresh : List String} {parts : List Sketch}
    (defines : Defines before known fresh names parts middle)
    (grown : Grown opened middle after) : Defines before known fresh names parts after where
  own name member := by
    rcases defines.own name member with ⟨id, found, above, object⟩
    exact ⟨id, found, above, grown.objects object⟩
  others := defines.others
  parts := by
    refine defines.parts.imp ?_
    rintro name part ⟨ref, same, kind, object⟩
    exact ⟨ref, same, kind, grown.objects object⟩

theorem Defines.given {before after : Records} {known names : Names} {fresh : List String}
    {parts : List Sketch} (defines : Defines before known fresh names parts after) :
    ∀ part ∈ parts, part.children = [] ∧ ∃ name, DefinitionPart after name part := by
  intro part member
  have parts := defines.parts
  clear defines
  induction parts with
  | nil => cases member
  | cons here _ ih =>
      rcases List.mem_cons.mp member with rfl | later
      · rcases here with ⟨ref, rfl, kind, object⟩
        exact ⟨rfl, _, ref, rfl, kind, object⟩
      · exact ih later

/-- What was created: the names of the sketch are bound, to declared definitions where these were
known and to new ones elsewhere, the checks passed, and the sketch stands below its root. -/
structure Created (functions : Option Library) (known : Names) (tree : Sketch) (before : Records)
    (root : Node) (names : Names) (parts : List Sketch) (after : Records) : Prop where
  declared : Declared known before
  defines : Defines before known (newNames known tree) names parts after
  checked : check functions true (tree.mapData (bindData names)) = .ok ()
  rooted : Rooted after before.lastNode
    (fun data => Described functions after (bindData names data)) parts tree root
  grown : Grown (fun _ => False) before after

/-- The steps of a creation that succeeded. -/
theorem create_steps {tree : Sketch} {version : Option Version} {root : Node}
    (done : create functions tree version store = (.ok root, after)) :
    ∃ external parts bound contents first second,
      externalDefinitions version = .ok external ∧
        bindVariables tree external store = (.ok (parts, bound), first) ∧
          check functions true bound = .ok () ∧
            createContents functions bound first = (.ok contents, second) ∧
              createTree functions parts contents second = (.ok root, after) := by
  rcases bind_eq_ok.mp done with ⟨external, zeroth, given, done⟩
  rcases give_eq_ok.mp given with ⟨external_eq, rfl⟩
  have done := transaction_eq_ok.mp done
  rcases bind_eq_ok.mp done with ⟨⟨parts, bound⟩, first, bindings, done⟩
  rcases bind_eq_ok.mp done with ⟨_, second, checked, done⟩
  rcases give_eq_ok.mp checked with ⟨check_eq, rfl⟩
  rcases bind_eq_ok.mp done with ⟨contents, third, created, done⟩
  exact ⟨external, parts, bound, contents, first, third, external_eq, bindings, check_eq, created,
    done⟩

theorem tidy_create {tree : Sketch} {version : Option Version} {root : Node}
    (tidy : Tidy store.records)
    (done : create functions tree version store = (.ok root, after)) : Tidy after.records := by
  rcases create_steps done with
    ⟨external, parts, bound, contents, first, second, _, bindings, _, created, done⟩
  rcases bindVariables_spec bindings tidy with ⟨objects, _, _, _, _, _, defines⟩
  have tidy_first := objects.tidy tidy
  have objects' := createContents_objectsOnly created
  have grown : Grown (fun _ => False) first.records second.records := objects'.grown tidy_first
  exact (createTree_spec done (objects'.tidy tidy_first) (defines.grown grown).given).1

theorem tidy_importDocument {document : String} {version : Option Version} {root : Node}
    (tidy : Tidy store.records)
    (done : importDocument functions document version store = (.ok root, after)) :
    Tidy after.records := by
  rcases bind_eq_ok.mp done with ⟨statements, middle, read, done⟩
  have same : store = middle := (outcome_eq.mp read).2
  subst same
  exact tidy_create tidy done

theorem isBlock_bindData (names : Names) (data : Fields) (children children' : List Sketch) :
    Sketch.isBlock ⟨bindData names data, children⟩ = Sketch.isBlock ⟨data, children'⟩ := by
  unfold Sketch.isBlock Sketch.get?
  rw [get?_bindData names data (by decide) (by decide)]

/-- Storing objects makes no block of anything else. -/
theorem isBlock_createContents {tree contents : Sketch}
    (created : createContents functions tree store = (.ok contents, after)) :
    contents.isBlock = tree.isBlock := by
  rcases tree with ⟨data, children⟩
  rcases bind_eq_ok.mp created with ⟨children', middle, _, created⟩
  split at created
  · rcases pure_eq_ok.mp created with ⟨rfl, _⟩
    rfl
  · rename_i single
    rcases bind_eq_ok.mp created with ⟨⟨ref, data'⟩, last, stored, created⟩
    rcases pure_eq_ok.mp created with ⟨rfl, _⟩
    rcases createContent_spec stored with ⟨_, rfl, _⟩
    rw [show Sketch.isBlock ⟨data, children⟩ = false from Bool.not_eq_true _ ▸ single]
    simp [Sketch.isBlock, Sketch.get?, storedData, Entries.get?_insert]

/-- The objects of a block are those of its statements. -/
theorem createContents_block {tree contents : Sketch}
    (created : createContents functions tree store = (.ok contents, after))
    (block : tree.isBlock = true) :
    createAllContents functions tree.children store = (.ok contents.children, after) := by
  rcases tree with ⟨data, children⟩
  rcases bind_eq_ok.mp created with ⟨children', middle, below, created⟩
  rw [show Sketch.isBlock ⟨data, children'⟩ = true from block, if_pos rfl] at created
  rcases pure_eq_ok.mp created with ⟨rfl, rfl⟩
  exact below

/-- A sketch without addresses of its own that was created with some external definitions. -/
theorem create_external {tree : Sketch} {version : Option Version} {root : Node}
    (tidy : Tidy store.records) (plain : ∀ part ∈ tree.walk, part.get? "object_id" = none)
    (done : create functions tree version store = (.ok root, after)) :
    ∃ external known names parts, externalDefinitions version = .ok external ∧
      (∃ first, externalNames .empty external store = (.ok known, first)) ∧
        Created functions known tree store.records root names parts after.records := by
  rcases create_steps done with
    ⟨external, parts, bound, contents, first, second, external_eq, bindings, checked, created, done⟩
  rcases bindVariables_spec bindings tidy with
    ⟨objects, known, names, listed, declared, rfl, defines⟩
  have tidy_first := objects.tidy tidy
  have objects' := createContents_objectsOnly created
  have grown : Grown (fun _ => False) first.records second.records := objects'.grown tidy_first
  rcases createTree_spec done (objects'.tidy tidy_first) (defines.grown grown).given with
    ⟨tidy_after, grown', rooted⟩
  have grown_first := grown.trans grown' fun _ _ _ impossible => impossible
  have whole := (objects.grown tidy).trans grown_first fun _ _ _ impossible => impossible
  refine ⟨external, known, names, parts, external_eq, listed,
    ⟨declared, defines.grown grown_first, checked, ?_, whole⟩⟩
  have last : second.records.lastNode = store.records.lastNode :=
    objects'.lastNode.trans objects.lastNode
  have same_block : contents.isBlock = tree.isBlock := by
    rw [isBlock_createContents created]
    rcases tree with ⟨data, children⟩
    exact isBlock_bindData names data _ _
  rw [last] at rooted
  refine ⟨rooted.stored, rooted.isRoot, ?_, ?_⟩
  · intro block
    rcases rooted.block (same_block.trans block) with
      ⟨content, heads, ids, ordered, definitions, statements⟩
    refine ⟨content, heads, ids, ordered, definitions, ?_⟩
    rcases tree with ⟨data, children⟩
    rw [isBlock_createContents created] at same_block
    exact (statements.described (createContents_block created (same_block.trans block)) tidy_first
      (fun part member => plain_mapData plain part (List.mem_cons_of_mem _ member))
      grown').of_mapData
  · intro single
    exact ((rooted.single (same_block.trans single)).described created tidy_first
      (plain_mapData plain) grown').of_mapData

theorem create_spec {tree : Sketch} {version : Option Version} {root : Node}
    (tidy : Tidy store.records) (plain : ∀ part ∈ tree.walk, part.get? "object_id" = none)
    (done : create functions tree version store = (.ok root, after)) :
    ∃ known names parts, (version = none → known = .empty) ∧
      Created functions known tree store.records root names parts after.records := by
  rcases create_external tidy plain done with
    ⟨external, known, names, parts, external_eq, ⟨first, listed⟩, whole⟩
  refine ⟨known, names, parts, ?_, whole⟩
  rintro rfl
  cases external_eq
  exact (pure_eq_ok.mp listed).1.symm

end RuleTree.Creation
