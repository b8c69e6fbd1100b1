import RuleTree.Proofs.Changes
import RuleTree.Proofs.Creation.Resolution
import RuleTree.Proofs.Creation.Sprouts
import RuleTree.Proofs.Tree.Copies

/-!
# What stands in the store after a creation

A sketch without addresses of its own that is created becomes one new tree, and nothing that was
stored before is changed (`Reachable.creates_exactly`).  The new nodes have the shape of the sketch.
A block has one more child for each new name, before its statements and in the order in which the
names are used first.  Every new node wraps a new object of its own, which is what the data of its
part say with the definition of a name in the place of the name.  No other objects are new, apart
from the definitions of new names if the sketch is no block, as these have no nodes.
-/

namespace RuleTree

open Step Store Records RuleTree.Tree Creation

variable {functions : Option Library} {store after : Store}

/-! ## Numbers of what nodes wrap -/

/-- No node wraps anything with a number that was not given out. -/
theorem Reachable.wrapsGiven (reachable : Reachable store) : store.records.WrapsGiven := by
  apply reachable.of_changes wrapsGiven_empty
  intro before after linked given change
  cases change with
  | built builds => exact given.builds linked builds
  | moved moved => exact given.repositioned moved
  | deleted stages => exact given.dismantled stages.dismantled

namespace Creation

/-! ## What is to be stored -/

/-- The object is what data say, with the definition of a name in the place of the name. -/
def Expressed (records : Records) (definition : String → ObjectId) (data : Fields)
    (ref : ContentRef) : Prop :=
  ∃ content, records.objects.get? ref = some content ∧
    Expresses (fun name id => id = definition name) data content

/-- A new node without children that wraps the definition of a name. -/
structure Heads (before after : Records) (definition : String → ObjectId) (name : String)
    (id : NodeId) : Prop where
  fresh : before.lastNode < id.val
  childless : after.orderedChildren id = []
  wraps : after.Wraps id ⟨.definition, definition name⟩

/-- New nodes wrap new objects, each its own, and other new objects are definitions of some names
without nodes. -/
structure NewObjects (before : Records) (free : List String) (definition : String → ObjectId)
    (after : Records) : Prop where
  absent : ∀ id ref, before.lastNode < id.val → after.Wraps id ref →
    before.objects.get? ref = none
  alone : ∀ id other ref, before.lastNode < id.val → after.Wraps id ref →
    after.Wraps other ref → other = id
  accounted : ∀ ref content, after.objects.get? ref = some content →
    before.objects.get? ref = some content ∨
      (∃ id, before.lastNode < id.val ∧ after.Wraps id ref) ∨
        ∃ name ∈ free, ref = ⟨.definition, definition name⟩
  unwrapped : ∀ name ∈ free, ∀ id, ¬after.Wraps id ⟨.definition, definition name⟩

/-- A new tree was stored for a sketch, with definitions for its names, and nothing else was
changed. -/
structure Faithful (before : Records) (supplied : List (String × ContentRef)) (tree : Sketch)
    (definition : String → ObjectId) (root : Node) (after : Records) : Prop where
  old_nodes : ∀ id node, before.nodes.get? id = some node →
    after.nodes.get? id = some node ∧ after.orderedChildren id = before.orderedChildren id
  old_objects : ∀ ref content, before.objects.get? ref = some content →
    after.objects.get? ref = some content
  definitions : Definitions before supplied tree definition
  defined : ∀ name ∈ localNames (supplied.map Prod.fst) tree,
    before.objects.get? ⟨.definition, definition name⟩ = none ∧
      after.objects.get? ⟨.definition, definition name⟩ = some (.definition name none)
  rooted : after.nodes.get? root.id = some root ∧ root.parent = none ∧ before.lastNode < root.id.val
  block : tree.isBlock = true → root.content = none ∧ ∃ heads ids,
    after.orderedChildren root.id = heads ++ ids ∧
      List.Forall₂ (Heads before after definition) (localNames (supplied.map Prod.fst) tree) heads ∧
        MirrorsAll after before.lastNode (Expressed after definition) tree.children ids
  single : tree.isBlock = false →
    Mirrors after before.lastNode (Expressed after definition) tree root.id
  new_nodes : ∀ id node, after.nodes.get? id = some node →
    before.nodes.get? id = some node ∨ after.Within root.id id
  new_objects : NewObjects before
    (if tree.isBlock then [] else localNames (supplied.map Prod.fst) tree) definition after

/-! ## Definitions as children -/

/-- The part of a definition with a 64-bit number. -/
def Sketches (own : ContentRef) (part : Sketch) : Prop :=
  Word.InRange own.id.val ∧ ∃ name, part = definitionSketch own name

/-- The nodes of definitions are stored like any others. -/
theorem createNodesFrom_of_definitions {parent : NodeId} {position : Nat} {owns : List ContentRef}
    {parts : List Sketch} (given : List.Forall₂ Sketches owns parts)
    (done : createDefinitions functions parent position parts store = (.ok (), after)) :
    createNodesFrom parent position parts store = (.ok (), after) := by
  induction given generalizing position store with
  | nil => exact done
  | @cons own part owns parts here _ ih =>
      rcases here with ⟨range, name, rfl⟩
      rcases bind_eq_ok.mp done with ⟨⟨ref, left⟩, first, created, done⟩
      rw [createContent_definitionSketch range] at created
      cases created
      rcases bind_eq_ok.mp done with ⟨node, second, saved, done⟩
      have named : storedRef (definitionSketch own name).data = .ok own :=
        storedRef_definitionSketch range
      refine bind_eq_ok.mpr ⟨(), second, ?_, ih done⟩
      exact bind_eq_ok.mpr ⟨own, store, give_eq_ok.mpr ⟨named, rfl⟩,
        bind_eq_ok.mpr ⟨node, second, saved, rfl⟩⟩

theorem createNodesFrom_append {parent : NodeId} {position : Nat} {trees others : List Sketch}
    {middle : Store} (first : createNodesFrom parent position trees store = (.ok (), middle))
    (second : createNodesFrom parent (position + trees.length) others middle = (.ok (), after)) :
    createNodesFrom parent position (trees ++ others) store = (.ok (), after) := by
  induction trees generalizing position store with
  | nil =>
      rcases pure_eq_ok.mp first with ⟨_, rfl⟩
      exact second
  | cons tree rest ih =>
      rcases bind_eq_ok.mp first with ⟨_, next, here, first⟩
      refine bind_eq_ok.mpr ⟨(), next, here, ih first ?_⟩
      rw [Nat.add_assoc, Nat.add_comm 1]
      exact second

/-- What comes before the statements: a block has its definitions there, and other trees have none
of theirs. -/
def planned {α : Type} (definitions : List α) (tree : Sketch) : List α :=
  if tree.isBlock then definitions else []

theorem mem_of_planned {α : Type} {definitions : List α} {tree : Sketch} {item : α}
    (member : item ∈ planned definitions tree) : item ∈ definitions := by
  unfold planned at member
  split at member
  · exact member
  · cases member

theorem nodup_planned {α : Type} {definitions : List α} {tree : Sketch}
    (distinct : definitions.Nodup) : (planned definitions tree).Nodup := by
  unfold planned
  split
  · exact distinct
  · exact List.nodup_nil

/-- The definitions of names that get nodes. -/
def wrappedDefinitions (definition : String → ObjectId) (names : List String) (tree : Sketch) :
    List ContentRef :=
  (planned names tree).map fun name => ⟨.definition, definition name⟩

/-- The definitions of a block are stored as if they were statements. -/
theorem createTree_planned {owns : List ContentRef} {parts : List Sketch} {tree : Sketch}
    {root : Node} (given : List.Forall₂ Sketches owns parts)
    (done : createTree functions parts tree store = (.ok root, after)) :
    createTree functions [] ⟨tree.data, planned parts tree ++ tree.children⟩ store =
      (.ok root, after) := by
  rcases tree with ⟨data, children⟩
  have same_block : Sketch.isBlock ⟨data, planned parts ⟨data, children⟩ ++ children⟩ =
      Sketch.isBlock ⟨data, children⟩ := rfl
  unfold createTree at done ⊢
  rw [same_block]
  unfold planned
  split at done
  · rename_i block
    rw [if_pos block, if_pos block]
    rcases bind_eq_ok.mp done with ⟨root', first, saved, done⟩
    rcases bind_eq_ok.mp done with ⟨_, second, defined, done⟩
    rcases bind_eq_ok.mp done with ⟨_, third, created, done⟩
    refine bind_eq_ok.mpr ⟨root', first, saved, bind_eq_ok.mpr ⟨(), first, rfl, ?_⟩⟩
    refine bind_eq_ok.mpr ⟨(), third, ?_, done⟩
    apply createNodesFrom_append (createNodesFrom_of_definitions given defined)
    rw [Nat.zero_add]
    exact created
  · rename_i single
    rw [if_neg single, if_neg single]
    exact done

/-! ## What is stored -/

section Stored

variable {before middle records : Records} {floor : Int} {fits : Fields → ContentRef → Prop}
  {definition : String → ObjectId}

/-- The nodes of definitions wrap them. -/
theorem heads_of_mirrors {names : List String} {parts : List Sketch} {heads : List NodeId}
    (sketched : List.Forall₂
      (fun name part => part = definitionSketch ⟨.definition, definition name⟩ name) names parts)
    (range : ∀ name ∈ names, Word.InRange (definition name).val)
    (mirrors : MirrorsAll records before.lastNode Stored parts heads) :
    List.Forall₂ (Heads before records definition) names heads := by
  induction sketched generalizing heads with
  | nil =>
      cases mirrors
      exact .nil
  | @cons name part names parts here _ ih =>
      subst here
      rcases mirrors with ⟨id, others, rfl, ⟨above, ⟨node, ref, found, wraps, named⟩, childless⟩,
        mirrors⟩
      refine .cons ⟨above, childless, node, found, ?_⟩
        (ih (fun other member => range other (by simp [member])) mirrors)
      have own : storedRef (definitionSketch ⟨.definition, definition name⟩ name).data =
          .ok ⟨.definition, definition name⟩ := storedRef_definitionSketch (range name (by simp))
      have same : storedRef (definitionSketch ⟨.definition, definition name⟩ name).data = .ok ref :=
        named
      rw [wraps, ← Except.ok.inj (own.symm.trans same)]

end Stored

/-- The addresses in the parts of definitions are those of the definitions. -/
theorem addresses_definitions {names : List String} {parts : List Sketch} {refs : List ContentRef}
    {definition : String → ObjectId}
    (sketched : List.Forall₂
      (fun name part => part = definitionSketch ⟨.definition, definition name⟩ name) names parts)
    (range : ∀ name ∈ names, Word.InRange (definition name).val)
    (addresses : Addresses (Sketch.walkAll parts) refs) :
    refs = names.map fun name => ⟨.definition, definition name⟩ := by
  induction sketched generalizing refs with
  | nil =>
      cases addresses
      rfl
  | @cons name part names parts here _ ih =>
      subst here
      rcases addresses with _ | ⟨named, others⟩
      rename_i ref refs
      have own : storedRef (definitionSketch ⟨.definition, definition name⟩ name).data =
          .ok ⟨.definition, definition name⟩ := storedRef_definitionSketch (range name (by simp))
      have same : storedRef (definitionSketch ⟨.definition, definition name⟩ name).data = .ok ref :=
        named
      rw [List.map_cons, ← Except.ok.inj (own.symm.trans same),
        ih (fun other member => range other (by simp [member])) others]

/-- The phases of a creation: the definitions of names are stored, then the objects of the parts,
and then the nodes. -/
structure Phases (functions : Option Library) (store : Store)
    (supplied : List (String × ContentRef)) (tree : Sketch) (definition : String → ObjectId)
    (names : Names) (parts : List Sketch) (contents : Sketch) (first second : Store) (root : Node)
    (after : Store) : Prop where
  definitions : Definitions store.records supplied tree definition
  stored : InOrder store.records (localNames (supplied.map Prod.fst) tree) first.records
  named : ∀ part ∈ tree.walk, ∀ name, Named part.data name →
    names.get? name = some (definition name)
  sketched : List.Forall₂
    (fun name part => part = definitionSketch ⟨.definition, definition name⟩ name)
    (localNames (supplied.map Prod.fst) tree) parts
  defining : ObjectsOnly store.records first.records
  created : createContents functions (tree.mapData (bindData names)) first = (.ok contents, second)
  planted : createTree functions parts contents second = (.ok root, after)

theorem create_phases {tree : Sketch} {version : Option Version} {root : Node}
    (tidy : Tidy store.records)
    (done : create functions tree version store = (.ok root, after)) :
    ∃ external supplied definition names parts contents first second,
      externalDefinitions version = .ok external ∧ supplied.map Prod.snd = external ∧
        store.records.Supplies supplied ∧
          Phases functions store supplied tree definition names parts contents first second root
            after := by
  rcases create_steps done with
    ⟨external, parts, bound, contents, first, second, external_eq, bindings, _, created, planted⟩
  rcases resolution_of_bindVariables tidy bindings with
    ⟨supplied, names, definition, refs_eq, supplies, rfl, named, resolution⟩
  exact ⟨external, supplied, definition, names, parts, contents, first, second, external_eq,
    refs_eq, supplies, resolution.definitions, resolution.stored, named, resolution.parts,
    (bindVariables_spec bindings tidy).1, created, planted⟩

namespace Phases

section

variable {supplied : List (String × ContentRef)} {tree : Sketch} {definition : String → ObjectId}
  {names : Names} {parts : List Sketch} {contents : Sketch} {first second : Store} {root : Node}
  {ref : ContentRef} {id : NodeId}
  (phases : Phases functions store supplied tree definition names parts contents first second root
    after)

include phases

theorem isBlock_eq : contents.isBlock = tree.isBlock := by
  rw [isBlock_createContents phases.created]
  rcases tree with ⟨data, children⟩
  exact isBlock_bindData names data _ _

/-- The first two phases store objects. -/
theorem objectsOnly : ObjectsOnly store.records second.records :=
  phases.defining.trans (createContents_objectsOnly phases.created)

/-- A new definition is stored first and has a new number. -/
theorem defined {name : String} (member : name ∈ localNames (supplied.map Prod.fst) tree) :
    store.records.lastObject < (definition name).val ∧
      first.records.objects.get? ⟨.definition, definition name⟩ =
        some (.definition name none) := by
  rcases List.mem_iff_getElem?.mp member with ⟨index, listed⟩
  have own := phases.definitions.own index name listed
  refine ⟨by rw [own]; simp only; omega, ?_⟩
  exact (phases.stored.objects _ _).mpr (.inr ⟨index, name, listed, rfl, by rw [own]⟩)

/-- The new definitions that get nodes. -/
theorem sketched_planned : List.Forall₂
    (fun name part => part = definitionSketch ⟨.definition, definition name⟩ name)
    (planned (localNames (supplied.map Prod.fst) tree) tree) (planned parts tree) := by
  unfold planned
  split
  · exact phases.sketched
  · exact .nil

/-- What a bound part describes is what its data say. -/
theorem expressed {part : Sketch} (member : part ∈ tree.walk) {ref : ContentRef}
    (described : Described functions after.records (bindData names part.data) ref) :
    Expressed after.records definition part.data ref := by
  rcases described with ⟨content, kind_eq, described, stored⟩
  refine ⟨content, stored, ?_⟩
  rcases expresses_of_described kind_eq described with ⟨kind_eq, expressed⟩
  refine ⟨kind_eq, ?_⟩
  cases content with
  | use id =>
      rcases expressed with ⟨name, named, found⟩ | ⟨unresolved, number⟩
      · rw [phases.named part member name named] at found
        exact .inl ⟨name, named, (Option.some.inj found).symm⟩
      · refine .inr ⟨fun name named => ?_, number⟩
        exact absurd (phases.named part member name named) (unresolved name named _)
  | _ => exact expressed

variable (tidy : Tidy store.records)

include tidy

theorem tidy_first : Tidy first.records := phases.defining.tidy tidy

theorem tidy_second : Tidy second.records := phases.objectsOnly.tidy tidy

variable (plain : ∀ part ∈ tree.walk, part.get? "object_id" = none)

include plain

/-- The new definitions have 64-bit numbers, since variables name them. -/
theorem range : ∀ name ∈ localNames (supplied.map Prod.fst) tree,
    Word.InRange (definition name).val := by
  intro name member
  rcases (mem_localNames.mp member).1 with ⟨part, part_mem, named⟩
  exact (use_of_created phases.created (phases.tidy_first tidy).linked plain part_mem
    (usedName?_eq_some.mpr named) (phases.named part part_mem name named)).1

/-- All nodes are stored for a sketch, which has the new definitions among its parts. -/
theorem createTree_eq : createTree functions []
    ⟨contents.data, planned parts tree ++ contents.children⟩ second = (.ok root, after) := by
  have given : List.Forall₂ Sketches ((localNames (supplied.map Prod.fst) tree).map fun name =>
      (⟨.definition, definition name⟩ : ContentRef)) parts := by
    rw [List.forall₂_map_left_iff]
    refine ((List.forall₂_and_left _ _).mpr ⟨phases.range tidy plain, phases.sketched⟩).imp ?_
    rintro name part ⟨in_range, rfl⟩
    exact ⟨in_range, name, rfl⟩
  have done := createTree_planned given phases.planted
  have same : planned parts contents = planned parts tree := by
    unfold planned
    rw [phases.isBlock_eq]
  rwa [same] at done

/-- Nodes are put around the definitions that get nodes and around the objects of the parts. -/
theorem wrapped : ∃ made refs, Builds first.records made [] second.records ∧ refs.Perm made ∧
    Builds second.records [] (wrappedDefinitions definition
      (localNames (supplied.map Prod.fst) tree) tree ++ refs) after.records := by
  rcases builds_createContents phases.created with ⟨made, storing, same⟩
  rcases builds_createTree .nil (phases.createTree_eq tidy plain) with
    ⟨made', wrapped, planting, exact_planting⟩
  rcases exact_planting (by simp) with ⟨rfl, heads, refs, rfl, no_heads, wrapping⟩
  have no_heads : heads = [] := by simpa using no_heads
  subst no_heads
  have range : ∀ name ∈ planned (localNames (supplied.map Prod.fst) tree) tree,
      Word.InRange (definition name).val :=
    fun name member => phases.range tidy plain name (mem_of_planned member)
  suffices split : ∃ owns rest, refs = owns ++ rest ∧
      Addresses (Sketch.walkAll (planned parts tree)) owns ∧ Wrapping contents rest by
    rcases split with ⟨owns, rest, rfl, addresses, wrapping⟩
    rw [addresses_definitions phases.sketched_planned range addresses] at planting
    exact ⟨made, rest, storing, same (plain_mapData plain) rest wrapping, planting⟩
  unfold Wrapping at wrapping ⊢
  split at wrapping
  · rename_i block
    rw [Sketch.walkAll_append] at wrapping
    rcases wrapping.split with ⟨owns, rest, rfl, first, second⟩
    refine ⟨owns, rest, rfl, first, ?_⟩
    rw [if_pos (show contents.isBlock = true from block)]
    exact second
  · rename_i single
    have single : ¬contents.isBlock = true := single
    have none_planned : planned parts tree = [] := by
      rw [planned, if_neg (phases.isBlock_eq ▸ single)]
    rw [none_planned] at wrapping ⊢
    refine ⟨[], refs, rfl, .nil, ?_⟩
    rw [if_neg single]
    rcases contents with ⟨data, children⟩
    exact wrapping

theorem grown : Grown (fun _ => False) store.records after.records :=
  (phases.objectsOnly.grown tidy).trans
    (createTree_spec (phases.createTree_eq tidy plain) (phases.tidy_second tidy) (by simp)).2.1
    fun _ _ _ impossible => impossible

omit plain

section Wrapped

variable {made refs : List ContentRef} (storing : Builds first.records made [] second.records)
  (same : refs.Perm made)

include storing same

/-- The definitions are stored before the objects of the parts. -/
theorem definition_not_mem {name : String}
    (member : name ∈ localNames (supplied.map Prod.fst) tree) :
    (⟨.definition, definition name⟩ : ContentRef) ∉ refs := by
  intro wrapped
  have linked := (phases.tidy_first tidy).linked
  have above := (storing.of_mem_made linked (same.subset wrapped)).1
  have bound := (linked.addressed (phases.defined member).2).1
  omega

/-- What gets a node is new. -/
theorem fresh_of_wrapped {ref : ContentRef} (member : ref ∈ wrappedDefinitions definition
    (localNames (supplied.map Prod.fst) tree) tree ++ refs) :
    store.records.lastObject < ref.id.val := by
  rcases List.mem_append.mp member with own | part
  · rcases List.mem_map.mp own with ⟨name, name_mem, rfl⟩
    exact (phases.defined (mem_of_planned name_mem)).1
  · have above :=
      (storing.of_mem_made (phases.tidy_first tidy).linked (same.subset part)).1
    rw [phases.stored.lastObject] at above
    omega

theorem nodup_wrapped : (wrappedDefinitions definition
    (localNames (supplied.map Prod.fst) tree) tree ++ refs).Nodup := by
  refine List.nodup_append.mpr ⟨?_, ?_, ?_⟩
  · refine List.Nodup.map_on ?_ (nodup_planned (nodup_localNames _ tree))
    intro name member other other_mem equal
    exact phases.definitions.apart (mem_localNames.mp (mem_of_planned member)).1
      (mem_localNames.mp (mem_of_planned other_mem)).1 (congrArg ContentRef.id equal)
  · exact same.nodup_iff.mpr (storing.nodup_made (phases.tidy_first tidy).linked)
  · intro ref own other part equal
    rcases List.mem_map.mp own with ⟨name, name_mem, rfl⟩
    exact phases.definition_not_mem tidy storing same (mem_of_planned name_mem) (equal ▸ part)

end Wrapped

include plain

/-- All new nodes wrap new objects, each its own, and other new objects are definitions that get no
nodes. -/
theorem new_objects (given : store.records.WrapsGiven) :
    NewObjects store.records (if tree.isBlock then [] else localNames (supplied.map Prod.fst) tree)
      definition after.records := by
  rcases phases.wrapped tidy plain with ⟨made, refs, storing, same, planting⟩
  have linked_second := (phases.tidy_second tidy).linked
  have grown := phases.grown tidy plain
  have fresh := @fresh_of_wrapped _ _ _ _ _ _ _ _ _ _ _ _ phases tidy _ _ storing same
  have unwrapped {ref : ContentRef} (new : store.records.lastObject < ref.id.val) (id : NodeId) :
      ¬second.records.Wraps id ref := by
    rintro ⟨node, found, wraps⟩
    rw [phases.objectsOnly.nodes] at found
    have bound := given id ref ⟨node, found, wraps⟩
    omega
  have wrapped_of {id : NodeId} {ref : ContentRef} (new : store.records.lastNode < id.val)
      (wraps : after.records.Wraps id ref) : ref ∈ wrappedDefinitions definition
        (localNames (supplied.map Prod.fst) tree) tree ++ refs := by
    rcases planting.wraps_cases linked_second wraps with ⟨node, found, _⟩ | ⟨member, _⟩
    · rw [phases.objectsOnly.nodes] at found
      have bound := tidy.linked.numbered found
      omega
    · exact member
  have wrapping {ref : ContentRef} (member : ref ∈ wrappedDefinitions definition
      (localNames (supplied.map Prod.fst) tree) tree ++ refs) :
      ∃ id, store.records.lastNode < id.val ∧ after.records.Wraps id ref := by
    rcases planting.wraps_of_mem linked_second member with ⟨id, node, found, wraps⟩
    refine ⟨id, (grown.newNodes found).resolve_left fun old => ?_, node, found, wraps⟩
    have above := fresh member
    have bound := given id ref ⟨node, old, wraps⟩
    omega
  refine ⟨?_, ?_, ?_, ?_⟩
  · intro id ref new wraps
    exact tidy.linked.object_fresh (fresh (wrapped_of new wraps))
  · intro id other ref new wraps wraps'
    have above := fresh (wrapped_of new wraps)
    exact planting.only linked_second (phases.nodup_wrapped tidy storing same) (unwrapped above)
      wraps' wraps
  · intro ref content found
    rcases planting.mem_made found with found | impossible
    · rcases storing.mem_made found with found | member
      · rcases (phases.stored.objects ref content).mp found with old | ⟨index, name, place, _, rfl⟩
        · exact .inl old
        · rw [← phases.definitions.own index name place]
          have member := List.mem_of_getElem? place
          by_cases block : tree.isBlock = true
          · refine .inr (.inl (wrapping (List.mem_append_left _
              (List.mem_map.mpr ⟨name, ?_, rfl⟩))))
            rw [planned, if_pos block]
            exact member
          · rw [if_neg block]
            exact .inr (.inr ⟨name, member, rfl⟩)
      · exact .inr (.inl (wrapping (List.mem_append_right _ (same.symm.subset member))))
    · cases impossible
  · intro name member id wraps
    split at member
    · cases member
    · rename_i single
      rcases planting.wraps_cases linked_second wraps with old | ⟨wrapped, _⟩
      · exact unwrapped (phases.defined member).1 id old
      · rw [wrappedDefinitions, planned, if_neg single] at wrapped
        exact phases.definition_not_mem tidy storing same member wrapped

/-- The new tree has the shape of the sketch. -/
theorem mirrors (shape : Rooted after.records store.records.lastNode Stored []
      ⟨contents.data, planned parts tree ++ contents.children⟩ root) :
    (tree.isBlock = true → root.content = none ∧ ∃ heads ids,
      after.records.orderedChildren root.id = heads ++ ids ∧
        List.Forall₂ (Heads store.records after.records definition)
          (localNames (supplied.map Prod.fst) tree) heads ∧
          MirrorsAll after.records store.records.lastNode (Expressed after.records definition)
            tree.children ids) ∧
      (tree.isBlock = false → Mirrors after.records store.records.lastNode
        (Expressed after.records definition) tree root.id) := by
  have grown := (createTree_spec (phases.createTree_eq tidy plain) (phases.tidy_second tidy)
    (by simp)).2.1
  have tidy_first := phases.tidy_first tidy
  have range := phases.range tidy plain
  have same_block := phases.isBlock_eq
  constructor
  · intro block
    rcases shape.block (same_block.trans block) with ⟨content, none_heads, all, ordered, rfl, shape⟩
    rw [planned, if_pos block] at shape
    rcases shape.split with ⟨heads, ids, rfl, definitions, statements⟩
    refine ⟨content, heads, ids, by simpa using ordered,
      heads_of_mirrors phases.sketched range definitions, ?_⟩
    rw [isBlock_createContents phases.created] at same_block
    have below := createContents_block phases.created (same_block.trans block)
    rcases tree with ⟨data, children⟩
    refine (statements.described below tidy_first (fun part member =>
      plain_mapData plain part (List.mem_cons_of_mem _ member)) grown).of_mapData.imp_walk ?_
    exact fun part member ref => phases.expressed (List.mem_cons_of_mem _ member)
  · intro single
    have shape := shape.single (same_block.trans single)
    have same : (⟨contents.data, planned parts tree ++ contents.children⟩ : Sketch) = contents := by
      rcases contents with ⟨data, children⟩
      rw [planned, if_neg (by simp [single])]
      rfl
    rw [same] at shape
    exact (shape.described phases.created tidy_first (plain_mapData plain)
      grown).of_mapData.imp_walk fun part member ref => phases.expressed member

end

end Phases

theorem create_faithful {tree : Sketch} {version : Option Version} {root : Node}
    (tidy : Tidy store.records) (given : store.records.WrapsGiven)
    (plain : ∀ part ∈ tree.walk, part.get? "object_id" = none)
    (done : create functions tree version store = (.ok root, after)) :
    ∃ external supplied definition, externalDefinitions version = .ok external ∧
      supplied.map Prod.snd = external ∧ store.records.Supplies supplied ∧
        Faithful store.records supplied tree definition root after.records := by
  rcases create_phases tidy done with ⟨external, supplied, definition, names, parts, contents,
    first, second, external_eq, refs_eq, supplies, phases⟩
  refine ⟨external, supplied, definition, external_eq, refs_eq, supplies, ?_⟩
  have grown := phases.grown tidy plain
  rcases createTree_spec (phases.createTree_eq tidy plain) (phases.tidy_second tidy) (by simp) with
    ⟨tidy_after, grown_second, shape⟩
  rw [phases.objectsOnly.lastNode] at shape
  rcases hanging_create tidy done with ⟨fresh, hanging⟩
  rcases phases.mirrors tidy plain shape with ⟨block, single⟩
  refine
    { definitions := phases.definitions, block, single
      old_nodes := fun id node found => ⟨grown.nodes found,
        orderedChildren_grown tidy grown found not_false⟩
      old_objects := fun ref content found => grown.objects found
      defined := ?_
      rooted := ⟨shape.stored, shape.isRoot, fresh⟩
      new_nodes := fun id node found =>
        within_of_hanging tidy.linked tidy_after.linked grown hanging found
      new_objects := phases.new_objects tidy plain given }
  intro name member
  rcases phases.defined member with ⟨above, stored⟩
  constructor
  · exact tidy.linked.object_fresh above
  · have objects := createContents_objectsOnly phases.created
    have kept : Grown (fun _ => False) first.records second.records :=
      objects.grown (phases.tidy_first tidy)
    exact grown_second.objects (kept.objects stored)

end Creation

/-- A sketch without addresses of its own that is created becomes one new tree, whether or not there
is a version that supplies definitions.  What was stored before is as it was; the new nodes have the
shape of the sketch, with the new definitions first if it is a block; each of them wraps a new
object of its own, which is what its part says; and the only other new objects are the definitions
of new names for a sketch that is no block. -/
theorem Reachable.creates_exactly (reachable : Reachable store) {tree : Sketch}
    {version : Option Version} {root : Node}
    (plain : ∀ part ∈ tree.walk, part.get? "object_id" = none)
    (done : Creation.create functions tree version store = (.ok root, after)) :
    ∃ external supplied definition, externalDefinitions version = .ok external ∧
      supplied.map Prod.snd = external ∧ store.records.Supplies supplied ∧
        Faithful store.records supplied tree definition root after.records :=
  create_faithful reachable.tidy reachable.wrapsGiven plain done

/-- A negated variable. -/
def negatedVariable : Sketch :=
  ⟨Sketch.dataOf .unary [("operator", .str "not")], [⟨Sketch.dataOf .use [("name", .str "x")], []⟩]⟩

theorem creates_exactly_negation : ∃ definition root after,
    Creation.create none negatedVariable none Store.empty = (.ok root, after) ∧
      Faithful Store.empty.records [] negatedVariable definition root after.records ∧
        after.records.objects.get? ⟨.definition, definition "x"⟩ = some (.definition "x" none) := by
  have succeeds : (Creation.create none negatedVariable none Store.empty).1 =
      .ok ⟨⟨1⟩, none, 0, some ⟨.unary, ⟨3⟩⟩⟩ := by decide +kernel
  rcases created : Creation.create none negatedVariable none Store.empty with ⟨answer, after⟩
  rw [created] at succeeds
  cases succeeds
  have plain : ∀ part ∈ negatedVariable.walk, part.get? "object_id" = none := by
    intro part member
    fin_cases member <;> rfl
  rcases Reachable.empty.creates_exactly plain created with
    ⟨external, supplied, definition, external_eq, refs_eq, _, faithful⟩
  cases external_eq
  rcases List.map_eq_nil_iff.mp refs_eq with rfl
  have used : "x" ∈ localNames [] negatedVariable := by decide +kernel
  exact ⟨definition, _, after, rfl, faithful, (faithful.defined "x" used).2⟩

end RuleTree
