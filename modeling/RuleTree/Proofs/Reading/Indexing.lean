import RuleTree.Proofs.Integrity
import RuleTree.Proofs.Reading.Answers
import Mathlib

/-!
# Trees that are loaded one after the other

Trees may be loaded in any order: below one another, above one another, or again.  After each load
the snapshot holds the trees that were loaded as the records have them, and nothing else
(`Snapshot.Indexes`), so that it answers as the records do (`Reachable.loads_index`).
-/

namespace RuleTree

open Step Records Reading

/-- The snapshot holds the trees below some roots, with the objects that these need, as the records
have them, and nothing else. -/
structure Snapshot.Indexes (records : Records) (roots : List NodeId) (snapshot : Snapshot) : Prop
    where
  covers : ∀ {id}, snapshot.covers id = true ↔ ∃ root ∈ roots, records.Within root id
  children : ∀ {id}, snapshot.covers id = true → ∃ ids, snapshot.children.get? id = some ids ∧
    records.childrenOf id = .ok ids ∧ ids.Nodup ∧
      ids.map records.position? = (List.range ids.length).map some
  nodes : ∀ {id node}, snapshot.nodes.get? id = some node ↔
    (∃ root ∈ roots, records.Within root id) ∧ records.nodes.get? id = some node
  objects : ∀ {ref content}, snapshot.objects.get? ref = some content ↔
    (∃ root ∈ roots, records.Needs root ref) ∧ records.objects.get? ref = some content

namespace Reading

open Snapshot

variable {records : Records} {reading after : Reading} {roots : List NodeId}

theorem indexes_start : Indexes records [] start.snapshot where
  covers := by simp [start, covers, Snapshot.empty, Table.contains]
  children covered := by simp [start, covers, Snapshot.empty, Table.contains] at covered
  nodes := by simp [start, Snapshot.empty]
  objects := by simp [start, Snapshot.empty]

/-- What is known of the children of a covered node. -/
theorem children_of_faithful (tidy : Tidy records) {snapshot : Snapshot}
    (faithful : Faithful records snapshot) {id : NodeId} (covered : snapshot.covers id = true) :
    ∃ ids, snapshot.children.get? id = some ids ∧ records.childrenOf id = .ok ids ∧ ids.Nodup ∧
      ids.map records.position? = (List.range ids.length).map some := by
  rcases covers_iff.mp covered with ⟨ids, known⟩
  rcases faithful.children known with ⟨rfl, loaded⟩
  rcases loaded id (List.mem_cons_self ..) with ⟨node, found⟩
  refine ⟨_, known, childrenOf_eq_ok.mpr ⟨⟨node, faithful.nodes found⟩, rfl⟩, ?_, ?_⟩
  · exact orderedChildren_perm.nodup_iff.mpr (tidy.linked.once id)
  · rw [orderedChildren_perm.length_eq]
    exact (tidy.contiguous id).positions_orderedChildren

section Load

variable {root : Node} (tidy : Tidy records) (faithful : Faithful records reading.snapshot)
  (stored : records.nodes.get? root.id = some root)
  (done : load records root.id reading = (.ok (), after))

include tidy stored done

theorem covers_after_load {id : NodeId} : after.snapshot.covers id = true ↔
    reading.snapshot.covers id = true ∨ records.Within root.id id := by
  rcases tidy.linked.subtree_eq stored with ⟨rest, subtree, listing⟩
  have listed : id ∈ (root :: rest).map Node.id ↔ records.Within root.id id := by
    rw [List.mem_map]
    constructor
    · rintro ⟨node, member, rfl⟩
      exact ((listing.mem_whole_iff stored).mp member).2
    · intro within
      rcases tidy.linked.within_stored ⟨root, stored⟩ within with ⟨node, found⟩
      rcases tidy.linked.keyed found with rfl
      exact ⟨node, (listing.mem_whole_iff stored).mpr ⟨found, within⟩, rfl⟩
  have covers := @covers_load records reading root.id id
  rw [done, subtree] at covers
  rw [covers, ← listed]
  refine or_congr_right ⟨?_, fun member => ⟨_, rfl, member⟩⟩
  rintro ⟨nodes, same, member⟩
  exact Except.ok.inj same ▸ member

include faithful

theorem nodes_after_load {id : NodeId} {node : Node} :
    after.snapshot.nodes.get? id = some node ↔ reading.snapshot.nodes.get? id = some node ∨
      records.Within root.id id ∧ records.nodes.get? id = some node := by
  have faithful_after := (load_eq_ok tidy faithful stored done).1
  rcases tidy.linked.subtree_eq stored with ⟨rest, subtree, listing⟩
  have nodes : after.snapshot.nodes.get? id = (reading.snapshot.nodes.get? id).or
      ((root :: rest).find? fun node => node.id = id) := by
    have tree := @tree_load records reading root.id _ subtree
    rw [done] at tree
    have same : after.snapshot.nodes = _ := congrArg Prod.fst tree
    rw [same, get?_nodes_enter]
  constructor
  · intro known
    have found := faithful_after.nodes known
    rw [nodes] at known
    rcases Option.or_eq_some_iff.mp known with old | ⟨_, new⟩
    · exact .inl old
    · have here : node.id = id := by simpa using List.find?_some new
      subst here
      exact .inr ((listing.mem_whole_iff stored).mp (List.mem_of_find?_eq_some new)).symm
  · rintro (old | ⟨within, found⟩)
    · rw [nodes, old]
      rfl
    · have covered := (covers_after_load tidy stored done).mpr (.inr within)
      rcases covers_iff.mp covered with ⟨ids, children⟩
      rcases (faithful_after.children children).2 id (List.mem_cons_self ..) with ⟨other, known⟩
      have same := faithful_after.nodes known
      rw [found] at same
      exact Option.some.inj same ▸ known

/-- The definitions that are loaded along with the objects of a tree are those that its variables
name and those that variables name which were loaded before. -/
theorem objects_after_load {ref : ContentRef} {content : Content}
    (named : ∀ {use definition}, reading.snapshot.objects.get? use = some (.use definition) →
      ∃ content, reading.snapshot.objects.get? ⟨.definition, definition⟩ = some content) :
    after.snapshot.objects.get? ref = some content ↔
      reading.snapshot.objects.get? ref = some content ∨
        records.Needs root.id ref ∧ records.objects.get? ref = some content := by
  have faithful_after := (load_eq_ok tidy faithful stored done).1
  have stocked := load_stocked tidy faithful stored done
  rcases load_stages tidy.linked stored done with ⟨rest, middle, listing, contents, definitions⟩
  have contents := loadObjects_spec contents
  have definitions := loadObjects_spec definitions
  have known_middle {ref : ContentRef} {content : Content}
      (known : middle.snapshot.objects.get? ref = some content) :
      reading.snapshot.objects.get? ref = some content ∨
        records.Referenced root.id ref ∧ records.objects.get? ref = some content := by
    rcases contents.only known with old | ⟨member, found⟩
    · rw [objects_enter] at old
      exact .inl old
    · exact .inr ⟨(mem_contents_iff tidy.linked stored listing).mp member, found⟩
  have kept {ref : ContentRef} {content : Content}
      (known : reading.snapshot.objects.get? ref = some content) :
      after.snapshot.objects.get? ref = some content := by
    refine definitions.kept (contents.kept ?_)
    rw [objects_enter]
    exact known
  constructor
  · intro known
    rcases definitions.only known with old | ⟨member, found⟩
    · rcases known_middle old with old | ⟨referenced, found⟩
      · exact .inl old
      · exact .inr ⟨.inl referenced, found⟩
    · rcases mem_namedDefinitions.mp member with ⟨kind, use, use_known⟩
      rcases known_middle use_known with old | ⟨referenced, use_found⟩
      · rcases named old with ⟨content', known'⟩
        have here : ref = ⟨.definition, ref.id⟩ := by rw [← kind]
        rw [← here] at known'
        have same := kept known'
        rw [known] at same
        exact .inl (Option.some.inj same ▸ known')
      · exact .inr ⟨.inr ⟨kind, use, referenced, use_found⟩, found⟩
  · rintro (old | ⟨needs, found⟩)
    · exact kept old
    · have loaded : ∃ content, after.snapshot.objects.get? ref = some content := by
        rcases needs with referenced | ⟨kind, names⟩
        · exact stocked.objects referenced
        · have here : ref = ⟨.definition, ref.id⟩ := by rw [← kind]
          rw [here]
          exact stocked.definitions names
      rcases loaded with ⟨content', known⟩
      have same := (faithful_after.objects known).1
      rw [found] at same
      exact Option.some.inj same ▸ known

/-- A load puts the tree below its root beside those that were loaded before. -/
theorem indexes_load (indexes : Indexes records roots reading.snapshot) :
    Indexes records (roots ++ [root.id]) after.snapshot := by
  have either {holds : NodeId → Prop} :
      (∃ top ∈ roots ++ [root.id], holds top) ↔ (∃ top ∈ roots, holds top) ∨ holds root.id := by
    simp [or_and_right, exists_or]
  have faithful_after := (load_eq_ok tidy faithful stored done).1
  have named {use : ContentRef} {definition : ObjectId}
      (known : reading.snapshot.objects.get? use = some (.use definition)) :
      ∃ content, reading.snapshot.objects.get? ⟨.definition, definition⟩ = some content := by
    rcases indexes.objects.mp known with ⟨⟨top, member, needs⟩, found⟩
    rcases needs with referenced | ⟨kind, _⟩
    · rcases (faithful.objects known).2 definition rfl with ⟨content, stored⟩
      exact ⟨content, indexes.objects.mpr
        ⟨⟨top, member, .inr ⟨rfl, use, referenced, found⟩⟩, stored⟩⟩
    · have kind' := (tidy.linked.addressed found).2
      rw [kind] at kind'
      cases kind'
  refine ⟨?_, children_of_faithful tidy faithful_after, ?_, ?_⟩
  · intro id
    rw [covers_after_load tidy stored done, indexes.covers, either]
  · intro id node
    rw [nodes_after_load tidy faithful stored done, indexes.nodes, either, or_and_right]
  · intro ref content
    rw [objects_after_load tidy faithful stored done named, indexes.objects, either, or_and_right]

end Load

/-- After loads of stored nodes, however their trees overlap, the snapshot holds these trees. -/
theorem indexes_loads {loaded : List NodeId} (tidy : Tidy records) (complete : Complete records)
    (faithful : Faithful records reading.snapshot)
    (indexes : Indexes records loaded reading.snapshot)
    (stored : ∀ root ∈ roots, ∃ node, records.nodes.get? root = some node) :
    ∃ after, roots.forM (load records) reading = (.ok (), after) ∧
      Indexes records (loaded ++ roots) after.snapshot := by
  induction roots generalizing loaded reading with
  | nil => exact ⟨reading, rfl, by simpa using indexes⟩
  | cons root rest ih =>
      rcases stored root (by simp) with ⟨node, found⟩
      rcases tidy.linked.keyed found with rfl
      rcases exists_load tidy faithful found (complete.sound found).supplied with ⟨middle, done⟩
      have faithful_middle := (load_eq_ok tidy faithful found done).1
      have indexes_middle := indexes_load tidy faithful found done indexes
      rcases ih faithful_middle indexes_middle fun other member => stored other (by simp [member])
        with ⟨after, others, indexes_after⟩
      refine ⟨after, ?_, by simpa using indexes_after⟩
      exact bind_eq_ok.mpr ⟨(), middle, done, others⟩

end Reading

/-! ## All trees of a store -/

/-- In a complete store, loading any stored nodes, in any order, succeeds, and the snapshot then
holds the trees below these nodes as the records have them, and nothing else.  After any queries
whatsoever, a query is answered as it is answered node by node; but for its object a node can be
asked only if it is stored. -/
theorem Reachable.loads_index {store : Store} (reachable : Reachable store)
    (complete : Complete store.records) :
    (∀ roots : List NodeId,
      (∀ root ∈ roots, ∃ node, store.records.nodes.get? root = some node) →
        ∃ after, roots.forM (load store.records) start = (.ok (), after) ∧
          after.snapshot.Indexes store.records roots) ∧
      ∀ (queries : List Query) (query : Query), query.Addressed store.records → ∀ reading,
        (query.answer store.records .cached (Query.askAll store.records start queries)).1 =
          (query.answer store.records .direct reading).1 := by
  have tidy := reachable.tidy
  have begun : Snapshot.Faithful store.records start.snapshot := Snapshot.faithful_empty
  refine ⟨fun roots stored => ?_, fun queries query addressed reading => ?_⟩
  · exact indexes_loads tidy complete begun indexes_start stored
  · have faithful := Query.faithful_askAll tidy complete queries begun
    rcases Query.alike_answer tidy complete addressed _ reading faithful with ⟨_, answers⟩
    exact answers.eq fun _ _ same => same

/-- A block with two statements that were exchanged, the second of which has another below it. -/
def exchangedBlock : Store :=
  (Tree.moveChild ⟨1⟩ ⟨3⟩ 0
    (Tree.addChild ⟨3⟩ (.text "c")
      (Tree.addChild ⟨1⟩ (.text "b")
        (Tree.addChild ⟨1⟩ (.text "a") (Tree.addRoot none Store.empty).2).2).2).2).2

theorem reachable_exchangedBlock : Reachable exchangedBlock :=
  .moveChild _ _ _ (.addChild _ _ (.addChild _ _ (.addChild _ _ (.addRoot none .empty))))

/-- A statement is loaded before the block around it, and then again. -/
theorem loads_index_exchanged : Complete exchangedBlock.records ∧
    (∃ after, [(⟨3⟩ : NodeId), ⟨1⟩, ⟨3⟩].forM (load exchangedBlock.records) start =
        (.ok (), after) ∧
      after.snapshot.Indexes exchangedBlock.records [⟨3⟩, ⟨1⟩, ⟨3⟩]) ∧
      ∀ node, exchangedBlock.records.nodes.get? ⟨4⟩ = some node →
        ((Query.content node).answer exchangedBlock.records .cached
          (Query.askAll exchangedBlock.records start [.node ⟨5⟩, .node ⟨3⟩])).1 =
            ((Query.content node).answer exchangedBlock.records .direct start).1 := by
  have complete : Complete exchangedBlock.records := .of_all (by cbv) (by cbv)
  have stored : ∀ root ∈ [(⟨3⟩ : NodeId), ⟨1⟩, ⟨3⟩],
      ∃ node, exchangedBlock.records.nodes.get? root = some node := by
    intro root member
    apply Option.isSome_iff_exists.mp
    simp only [List.mem_cons, List.not_mem_nil, or_false] at member
    rcases member with rfl | rfl | rfl <;> cbv
  rcases reachable_exchangedBlock.loads_index complete with ⟨loads, queries⟩
  refine ⟨complete, loads _ stored, fun node found => queries _ _ (fun _ => ?_) start⟩
  have same := reachable_exchangedBlock.tidy.linked.keyed found
  exact ⟨node, same ▸ found⟩

/-- A single constant. -/
def loneConstant : Store := (Tree.addRoot (some (.boolean true)) Store.empty).2

/-- The record of a node that is not stored.  The object that it names is stored. -/
def strangeNode : Node := ⟨⟨2⟩, none, 0, some ⟨.boolean, ⟨1⟩⟩⟩

/-- Through a snapshot the node is missed, and node by node its object is found. -/
theorem content_of_strangeNode : Reachable loneConstant ∧ Complete loneConstant.records ∧
    ((Query.content strangeNode).answer loneConstant.records .cached start).1 =
      .error (.store (.nodeNotFound ⟨2⟩)) ∧
    ((Query.content strangeNode).answer loneConstant.records .direct start).1 =
      .ok (.content (some (.boolean true))) :=
  ⟨.addRoot _ .empty, .of_all (by rfl) (by rfl), by rfl, by rfl⟩

end RuleTree
