import RuleTree.Proofs.Tree.Cloning
import RuleTree.Proofs.Tree.Ownership

/-!
# The objects of a copy

A tree is copied in three passes: its definitions, its other objects, its nodes.  `Tree.Copied`
holds throughout the first two: every object that was made is the copy of the object of one node,
equal to it up to the definitions that the copied variables name.  `Tree.cloneTree_spec` puts the
passes together.
-/

namespace RuleTree.Tree

open Step Store Records

variable {store after : Store} {source records : Records} {nodes rest : List Node}
  {copies result : Copies} {made : List ContentRef}

/-- Only uses of variables are bound anew. -/
theorem rebind_of_kind (copies : Copies) {content : Content} (other : content.kind ≠ .use) :
    copies.rebind content = content := by
  cases content with
  | use definition => exact absurd rfl other
  | _ => rfl

theorem kind_rebind (copies : Copies) (content : Content) :
    (copies.rebind content).kind = content.kind := by
  cases content <;> rfl

/-- Some of the objects that the nodes wrap were copied, each once and for one node. -/
structure Copied (source : Records) (nodes : List Node) (copies : Copies) (made : List ContentRef)
    (records : Records) : Prop where
  builds : Builds source made [] records
  each : ∀ {id copy}, copies.contents.get? id = some copy → copy ∈ made ∧
    ∃ node ∈ nodes, node.id = id ∧ ∃ ref, node.content = some ref ∧ copy.kind = ref.kind ∧
      (ref.id.val ≤ source.lastObject → ∃ content, source.objects.get? ref = some content) ∧
        ∀ content, source.objects.get? ref = some content →
          records.objects.get? copy = some (copies.rebind content)
  injective : ∀ {id other copy}, copies.contents.get? id = some copy →
    copies.contents.get? other = some copy → id = other
  all : ∀ copy ∈ made, ∃ id, copies.contents.get? id = some copy
  renamed : ∀ {definition copy}, copies.definitions.get? definition = some copy →
    ∃ node ∈ nodes, node.content = some ⟨.definition, definition⟩ ∧
      copies.contents.get? node.id = some ⟨.definition, copy⟩

namespace Copied

theorem none (source : Records) (nodes : List Node) : Copied source nodes .none [] source where
  builds := .refl
  each found := by cases found
  injective found := by cases found
  all := by simp
  renamed found := by cases found

/-- One more object is copied.  The definitions may change on the way, if the objects that were
copied before do not depend on them. -/
theorem step (copied : Copied source nodes copies made records) (linked : Linked source)
    {node : Node} (member : node ∈ nodes) {ref : ContentRef} (wraps : node.content = some ref)
    (new : copies.contents.get? node.id = Option.none) {content : Content}
    (loaded : records.objects.get? ref = some content) (definitions : Table ObjectId ObjectId)
    (unmoved : ∀ {id copy}, copies.contents.get? id = some copy → ∀ content : Content,
      content.kind = copy.kind →
        copies.rebind content = Copies.rebind ⟨.empty, definitions⟩ content)
    (object : Content) (same : object = Copies.rebind ⟨.empty, definitions⟩ content)
    (named : ∀ {definition copy}, definitions.get? definition = some copy →
      copies.definitions.get? definition = some copy ∨
        (ref = ⟨.definition, definition⟩ ∧ copy = ⟨records.lastObject + 1⟩)) :
    Copied source nodes
      { contents := copies.contents.insert node.id ⟨object.kind, ⟨records.lastObject + 1⟩⟩
        definitions }
      (made ++ [⟨object.kind, ⟨records.lastObject + 1⟩⟩])
      (records.insertObject ⟨object.kind, ⟨records.lastObject + 1⟩⟩ object) := by
  have linked_now := copied.builds.linked linked
  have grown := copied.builds.grown linked
  have builds := Builds.object object copied.builds
  have kinds : object.kind = ref.kind := by
    rw [same, kind_rebind]
    exact (linked_now.addressed loaded).2
  have fresh {id : NodeId} {copy : ContentRef} (found : copies.contents.get? id = some copy) :
      copy ≠ ⟨object.kind, ⟨records.lastObject + 1⟩⟩ := by
    rintro rfl
    rcases (copied.builds.of_mem_made linked (copied.each found).1).2 with ⟨_, stored⟩
    have bound := (linked_now.addressed stored).1
    simp only at bound
    omega
  refine { builds, each := ?_, injective := ?_, all := ?_, renamed := ?_ }
  · intro id copy found
    rcases Table.get?_insert_cases found with ⟨rfl, rfl⟩ | ⟨_, found⟩
    · refine ⟨by simp, node, member, rfl, ref, wraps, kinds, fun old => ?_, ?_⟩
      · rcases copied.builds.mem_made loaded with found | new
        · exact ⟨content, found⟩
        · have above := (copied.builds.of_mem_made linked new).1
          omega
      · intro original stored
        rw [grown.objects stored] at loaded
        cases loaded
        rw [get?_insertObject, if_pos rfl, same]
        rfl
    · rcases copied.each found with
        ⟨member, owner, owner_mem, own, ref', wraps', kind, present, equal⟩
      refine ⟨by simp [member], owner, owner_mem, own, ref', wraps', kind, present, ?_⟩
      intro original stored
      rw [get?_insertObject, if_neg (Ne.symm (fresh found)), equal original stored]
      have kind_eq := (linked.addressed stored).2.trans kind.symm
      exact congrArg some (unmoved found original kind_eq)
  · intro id other copy found found'
    rcases Table.get?_insert_cases found with ⟨rfl, rfl⟩ | ⟨_, found⟩
    · rcases Table.get?_insert_cases found' with ⟨rfl, _⟩ | ⟨_, found'⟩
      · rfl
      · exact absurd rfl (fresh found')
    · rcases Table.get?_insert_cases found' with ⟨_, rfl⟩ | ⟨_, found'⟩
      · exact absurd rfl (fresh found)
      · exact copied.injective found found'
  · intro copy copy_mem
    rcases List.mem_append.mp copy_mem with old | new
    · rcases copied.all copy old with ⟨id, found⟩
      exact ⟨id, Table.get?_insert_of_absent new found⟩
    · rcases List.mem_singleton.mp new with rfl
      exact ⟨node.id, by rw [Table.get?_insert, if_pos rfl]⟩
  · intro definition copy found
    rcases named found with old | ⟨rfl, rfl⟩
    · rcases copied.renamed old with ⟨owner, owner_mem, wraps', found'⟩
      exact ⟨owner, owner_mem, wraps', Table.get?_insert_of_absent new found'⟩
    · refine ⟨node, member, wraps, ?_⟩
      rw [Table.get?_insert, if_pos rfl, kinds]

/-- One more definition is copied, as long as nothing else was. -/
theorem step_definition (copied : Copied source nodes copies made records) (linked : Linked source)
    (only : ∀ {id copy}, copies.contents.get? id = some copy → copy.kind = .definition)
    {node : Node} (member : node ∈ nodes) {definition : ObjectId}
    (wraps : node.content = some ⟨.definition, definition⟩)
    (new : copies.contents.get? node.id = Option.none) {content : Content}
    (loaded : records.objects.get? ⟨.definition, definition⟩ = some content) :
    Copied source nodes
      { contents := copies.contents.insert node.id ⟨content.kind, ⟨records.lastObject + 1⟩⟩
        definitions := copies.definitions.insert definition ⟨records.lastObject + 1⟩ }
      (made ++ [⟨content.kind, ⟨records.lastObject + 1⟩⟩])
      (records.insertObject ⟨content.kind, ⟨records.lastObject + 1⟩⟩ content) := by
  have kind : content.kind = .definition :=
    ((copied.builds.linked linked).addressed loaded).2
  refine copied.step linked member wraps new loaded _ ?_ content ?_ ?_
  · intro id copy entry object kind_eq
    rw [only entry] at kind_eq
    rw [rebind_of_kind _ (by simp [kind_eq]), rebind_of_kind _ (by simp [kind_eq])]
  · rw [rebind_of_kind _ (by simp [kind])]
  · intro other copy entry
    rcases Table.get?_insert_cases entry with ⟨rfl, rfl⟩ | ⟨_, old⟩
    · exact .inr ⟨rfl, rfl⟩
    · exact .inl old

/-- The first pass copies the definitions. -/
theorem definitions (done : copyDefinitions copies rest store = (.ok result, after))
    (copied : Copied source nodes copies made store.records) (linked : Linked source)
    (inside : ∀ node ∈ rest, node ∈ nodes) (distinct : (rest.map Node.id).Nodup)
    (new : ∀ node ∈ rest, copies.contents.get? node.id = Option.none)
    (only : ∀ {id copy}, copies.contents.get? id = some copy → copy.kind = .definition) :
    (∃ made, Copied source nodes result made after.records) ∧
      (∀ definition copy, copies.definitions.get? definition = some copy →
        ∃ copy, result.definitions.get? definition = some copy) ∧
      ∀ node ∈ rest, ∀ definition, node.content = some ⟨.definition, definition⟩ →
        ∃ copy, result.definitions.get? definition = some copy := by
  induction rest generalizing copies made store with
  | nil =>
      rcases pure_eq_ok.mp done with ⟨rfl, rfl⟩
      exact ⟨⟨made, copied⟩, fun _ copy found => ⟨copy, found⟩, by simp⟩
  | cons node rest ih =>
      rcases List.nodup_cons.mp distinct with ⟨unlisted, distinct⟩
      rcases List.forall_mem_cons.mp inside with ⟨inside_node, inside⟩
      rcases List.forall_mem_cons.mp new with ⟨new_node, new⟩
      rcases copyDefinitions_cons_eq_ok.mp done with
        ⟨none, done⟩ | ⟨definition, content, wraps, loaded, done⟩
      · rcases ih done copied inside distinct new only with ⟨whole, kept, found⟩
        refine ⟨whole, kept, fun other member definition wraps => ?_⟩
        rcases List.mem_cons.mp member with rfl | later
        · exact absurd wraps (none definition)
        · exact found other later definition wraps
      · have next := copied.step_definition linked only inside_node wraps new_node loaded
        have still_new : ∀ other ∈ rest, (copies.contents.insert node.id
            ⟨content.kind, ⟨store.records.lastObject + 1⟩⟩).get? other.id = Option.none := by
          intro other member
          rw [Table.get?_insert, if_neg]
          · exact new other member
          · intro same
            exact unlisted (List.mem_map.mpr ⟨other, member, same.symm⟩)
        have still_only : ∀ {id copy}, (copies.contents.insert node.id
            ⟨content.kind, ⟨store.records.lastObject + 1⟩⟩).get? id = some copy →
              copy.kind = .definition := by
          intro id copy entry
          rcases Table.get?_insert_cases entry with ⟨_, rfl⟩ | ⟨_, old⟩
          · exact ((copied.builds.linked linked).addressed loaded).2
          · exact only old
        rcases ih done next inside distinct still_new still_only with ⟨whole, kept, all⟩
        refine ⟨whole, ?_, ?_⟩
        · intro other copy old
          by_cases here : definition = other
          · exact kept other _ (by rw [Table.get?_insert, if_pos here])
          · exact kept other copy (by rw [Table.get?_insert, if_neg here, old])
        · intro other member target wraps'
          rcases List.mem_cons.mp member with rfl | later
          · rw [wraps] at wraps'
            cases wraps'
            exact kept definition _ (by rw [Table.get?_insert, if_pos rfl])
          · exact all other later target wraps'

/-- The second pass copies all other objects, with the definitions as the first pass left them. -/
theorem contents (done : copyContents copies rest store = (.ok result, after))
    (copied : Copied source nodes copies made store.records) (linked : Linked source)
    (inside : ∀ node ∈ rest, node ∈ nodes) :
    (∃ made, Copied source nodes result made after.records) ∧
      result.definitions = copies.definitions := by
  induction rest generalizing copies made store with
  | nil =>
      rcases pure_eq_ok.mp done with ⟨rfl, rfl⟩
      exact ⟨⟨made, copied⟩, rfl⟩
  | cons node rest ih =>
      rcases List.forall_mem_cons.mp inside with ⟨inside_node, inside⟩
      rcases copyContents_cons_eq_ok.mp done with
        ⟨_, done⟩ | ⟨ref, content, wraps, new, loaded, done⟩
      · exact ih done copied inside
      · have next := copied.step linked inside_node wraps new loaded copies.definitions
          (fun _ _ _ => by rfl) (copies.rebind content) (by rfl) .inl
        have others := ih done next inside
        exact others

/-- Both passes over the nodes of a tree. -/
theorem of_passes {root : Node} {defined : Copies} {first second third : Store}
    (linked : Linked source) (listing : Listing source root.id rest)
    (copied_definitions : copyDefinitions .none (root :: rest) first = (.ok defined, second))
    (copied_contents : copyContents defined (root :: rest) second = (.ok copies, third))
    (unchanged : first.records = source) :
    (∃ made, Copied source (root :: rest) copies made third.records) ∧
      ∀ node ∈ root :: rest, ∀ definition, node.content = some ⟨.definition, definition⟩ →
        ∃ copy, copies.definitions.get? definition = some copy := by
  subst unchanged
  rcases (Copied.none first.records (root :: rest)).definitions copied_definitions linked
      (fun _ member => member) (linked.nodup_whole listing) (fun _ _ => rfl)
      (by simp [Copies.none]) with ⟨⟨made, copied⟩, _, renamed⟩
  rcases copied.contents copied_contents linked fun _ member => member with ⟨whole, same⟩
  rw [same]
  exact ⟨whole, renamed⟩

end Copied

/-! ## The nodes -/

/-- The step that saves the copy of one node. -/
def saveCopy (root : NodeId) (copies : Copies) (copied : Table NodeId NodeId) (node : Node) :
    Action Node :=
  if node.id = root then Store.saveNode none 0 (copies.contents.get? node.id)
  else
    give (copiedParent copied node) >>= fun owner =>
      Store.saveNode (some owner) node.position (copies.contents.get? node.id)

theorem copyNodes_cons (root : NodeId) (copies : Copies) (copied : Table NodeId NodeId)
    (node : Node) (rest : List Node) :
    copyNodes root copies copied (node :: rest) =
      (saveCopy root copies copied node >>= fun copy =>
        copyNodes root copies (copied.insert node.id copy.id) rest >>= fun below =>
          pure (copy :: below)) := by
  rw [copyNodes, saveCopy]
  split <;> simp

theorem saveCopy_eq_ok {root : NodeId} {copied : Table NodeId NodeId} {node copy : Node} :
    saveCopy root copies copied node store = (.ok copy, after) ↔
      ∃ records, { store with records } = after ∧
        ((node.id = root ∧
            store.records.saveNode none 0 (copies.contents.get? node.id) = .ok (copy, records)) ∨
          (node.id ≠ root ∧ ∃ parent owner, node.parent = some parent ∧
            copied.get? parent = some owner ∧
              store.records.saveNode (some owner) node.position (copies.contents.get? node.id) =
                .ok (copy, records))) := by
  unfold saveCopy
  by_cases here : node.id = root
  · simp only [here, if_true, ne_eq, not_true_eq_false, false_and, or_false, true_and]
    rw [Store.saveNode_eq_ok]
    simp only [and_comm]
  · simp only [here, if_false, false_and, false_or, ne_eq, not_false_eq_true, true_and]
    rw [bind_eq_ok]
    constructor
    · rintro ⟨owner, middle, given, saved⟩
      rcases give_eq_ok.mp given with ⟨found, rfl⟩
      rcases Store.saveNode_eq_ok.mp saved with ⟨records, stored, rfl⟩
      unfold copiedParent at found
      split at found
      · cases found
      · rename_i parent above
        split at found
        · rename_i entry
          cases found
          exact ⟨records, rfl, parent, owner, above, entry, stored⟩
        · cases found
    · rintro ⟨records, rfl, parent, owner, above, entry, saved⟩
      refine ⟨owner, store, give_eq_ok.mpr ⟨?_, rfl⟩,
        Store.saveNode_eq_ok.mpr ⟨records, saved, rfl⟩⟩
      simp [copiedParent, above, entry]

/-- The third pass puts a node around each copy. -/
theorem builds_copyNodes {root : NodeId} {copied : Table NodeId NodeId} {others : List Node}
    (wrapped : ∀ node ∈ rest, node.id ≠ root → ∃ ref, copies.contents.get? node.id = some ref)
    (done : copyNodes root copies copied rest store = (.ok others, after)) :
    Builds store.records [] ((rest.map Node.id).filterMap copies.contents.get?) after.records := by
  induction rest generalizing copied store others with
  | nil =>
      rcases pure_eq_ok.mp done with ⟨_, rfl⟩
      exact .refl
  | cons node rest ih =>
      rw [copyNodes_cons] at done
      rcases bind_eq_ok.mp done with ⟨copy, middle, saved, done⟩
      rcases bind_eq_ok.mp done with ⟨below, last, copied_rest, done⟩
      rcases pure_eq_ok.mp done with ⟨_, rfl⟩
      have others := ih (fun other member => wrapped other (by simp [member])) copied_rest
      have first : Builds store.records [] (copies.contents.get? node.id).toList
          middle.records := by
        rcases saveCopy_eq_ok.mp saved with
          ⟨records, rfl, ⟨here, saved⟩ | ⟨other, _, _, _, _, saved⟩⟩
        · cases content : copies.contents.get? node.id with
          | none =>
              rw [content] at saved
              exact .root .refl saved
          | some ref =>
              rw [content] at saved
              exact .one_node saved
        · rcases wrapped node (by simp) other with ⟨ref, content⟩
          rw [content] at saved ⊢
          exact .one_node saved
      cases content : copies.contents.get? node.id with
      | none =>
          rw [content] at first
          rw [List.map_cons, List.filterMap_cons_none content]
          exact first.trans others
      | some ref =>
          rw [content] at first
          rw [List.map_cons, List.filterMap_cons_some content]
          exact first.trans others

/-! ## All passes -/

/-- The passes of a copy that was made: the tree below the node was listed, its objects were copied,
and then its nodes. -/
structure ClonePasses (store : Store) (id : NodeId) (root : Node) (rest : List Node)
    (copies : Copies) (made : List ContentRef) (middle : Store) (copy : Node) (after : Store) :
    Prop where
  own : root.id = id
  stored : store.records.nodes.get? root.id = some root
  listing : Listing store.records root.id rest
  copied : Copied store.records (root :: rest) copies made middle.records
  objects : ObjectsOnly store.records middle.records
  covered : ∀ node ∈ root :: rest, ∀ ref, node.content = some ref →
    ∃ copy, copies.contents.get? node.id = some copy
  renamed : ∀ node ∈ root :: rest, ∀ definition, node.content = some ⟨.definition, definition⟩ →
    ∃ copy, copies.definitions.get? definition = some copy
  nodes : ∃ others, copyNodes root.id copies .empty (root :: rest) middle =
    (.ok (copy :: others), after)

theorem cloneTree_spec {node copy : Node} (linked : Linked store.records)
    (done : cloneTree node store = (.ok copy, after)) :
    ∃ root rest copies made middle,
      ClonePasses store node.id root rest copies made middle copy after := by
  replace done := transaction_eq_ok.mp done
  rcases bind_eq_ok.mp done with ⟨nodes, first, loaded, done⟩
  rcases fetch_eq_ok.mp loaded with ⟨listed, rfl⟩
  rcases linked.listing_of_subtree listed with ⟨root, rest, rfl, own, stored, listing⟩
  rw [← own] at done
  rcases bind_eq_ok.mp done with ⟨defined, second, copied_definitions, done⟩
  rcases bind_eq_ok.mp done with ⟨copies, third, copied_contents, done⟩
  rcases bind_eq_ok.mp done with ⟨copied_nodes, fourth, nodes, done⟩
  rcases Copied.of_passes linked listing copied_definitions copied_contents rfl with
    ⟨⟨made, copied⟩, renamed⟩
  rcases copyContents_spec copied_contents with ⟨objects, _, covered⟩
  refine ⟨root, rest, copies, made, third,
    { own, stored, listing, copied, covered, renamed
      objects := (copyDefinitions_spec copied_definitions).trans objects, nodes := ?_ }⟩
  cases copied_nodes with
  | nil => exact absurd done throw_ne_ok
  | cons first others =>
      rcases pure_eq_ok.mp done with ⟨rfl, rfl⟩
      exact ⟨others, nodes⟩

theorem ClonePasses.copying {id : NodeId} {root copy : Node} {middle : Store}
    (passes : ClonePasses store id root rest copies made middle copy after)
    (tidy : Tidy store.records) :
    ∃ copied, Copying store.records root.id copies.contents copy rest copied after.records := by
  rcases passes.nodes with ⟨others, nodes⟩
  exact Copying.of_copyNodes tidy passes.objects passes.listing passes.covered nodes

/-- Each object of the tree has a copy, so that the copies of the nodes wrap the copies of the
objects. -/
theorem ClonePasses.planting {id : NodeId} {root copy : Node} {middle : Store}
    (passes : ClonePasses store id root rest copies made middle copy after)
    (linked : Linked store.records) :
    Builds middle.records [] (((root :: rest).map Node.id).filterMap copies.contents.get?)
      after.records := by
  rcases passes.nodes with ⟨others, nodes⟩
  apply builds_copyNodes ?_ nodes
  intro node member not_root
  have below : node ∈ rest := by
    rcases List.mem_cons.mp member with rfl | below
    · exact absurd rfl not_root
    · exact below
  rcases wrapping_listing linked passes.listing node below with ⟨_, ref, _, content⟩
  exact passes.covered node member ref content

theorem ClonePasses.builds {id : NodeId} {root copy : Node} {middle : Store}
    (passes : ClonePasses store id root rest copies made middle copy after)
    (linked : Linked store.records) :
    Builds store.records made (((root :: rest).map Node.id).filterMap copies.contents.get?)
      after.records := by
  simpa using passes.copied.builds.trans (passes.planting linked)

/-- The copy of each object has a node of its own. -/
theorem ClonePasses.owned {id : NodeId} {root copy : Node} {middle : Store}
    (passes : ClonePasses store id root rest copies made middle copy after)
    (linked : Linked store.records) :
    (((root :: rest).map Node.id).filterMap copies.contents.get?).Nodup ∧
      ∀ ref, ref ∈ ((root :: rest).map Node.id).filterMap copies.contents.get? ↔ ref ∈ made := by
  constructor
  · apply List.Nodup.filterMap
    · intro id other ref found found'
      exact passes.copied.injective found found'
    · exact linked.nodup_whole passes.listing
  · intro ref
    rw [List.mem_filterMap]
    constructor
    · rintro ⟨id, _, found⟩
      exact (passes.copied.each found).1
    · intro member
      rcases passes.copied.all ref member with ⟨id, found⟩
      rcases (passes.copied.each found).2 with ⟨node, node_mem, rfl, _⟩
      exact ⟨node.id, List.mem_map.mpr ⟨node, node_mem, rfl⟩, found⟩

/-- The copy of a variable names the copy of the definition, or what the variable itself names. -/
theorem ClonePasses.use_of_made {id : NodeId} {root copy : Node} {middle : Store}
    (passes : ClonePasses store id root rest copies made middle copy after)
    (linked : Linked store.records)
    (counted : ∀ {id ref}, store.records.Wraps id ref → ref.id.val ≤ store.records.lastObject)
    {use : ContentRef} {definition : ObjectId} (new : use ∈ made)
    (found : after.records.objects.get? use = some (.use definition)) :
    ∃ original target, store.records.objects.get? original = some (.use target) ∧
      (⟨.definition, definition⟩ ∈ made ∨ definition = target) := by
  have planted := (passes.planting linked).grown (passes.copied.builds.linked linked)
  rcases passes.copied.all use new with ⟨owner, entry⟩
  rcases (passes.copied.each entry).2 with ⟨node, member, _, ref, wraps, _, present, same⟩
  have stored := ((passes.listing.mem_whole_iff passes.stored).mp member).1
  rcases present (counted ⟨node, stored, wraps⟩) with ⟨content, original⟩
  have rebound : copies.rebind content = .use definition := by
    have copied := planted.objects (same content original)
    rw [found] at copied
    exact (Option.some.inj copied).symm
  cases content with
  | use target =>
      refine ⟨ref, target, original, ?_⟩
      cases renamed : copies.definitions.get? target with
      | some copied =>
          rw [Copies.rebind, renamed] at rebound
          cases rebound
          rcases passes.copied.renamed renamed with ⟨declaring, _, _, entry⟩
          exact .inl (passes.copied.each entry).1
      | none =>
          rw [Copies.rebind, renamed] at rebound
          cases rebound
          exact .inr rfl
  | _ => cases rebound

theorem ClonePasses.named {lost : ContentRef → Prop} {id : NodeId} {root copy : Node}
    {middle : Store} (passes : ClonePasses store id root rest copies made middle copy after)
    (linked : Linked store.records) (intact : Intact lost store.records) {use : ContentRef}
    {definition : ObjectId} (found : after.records.objects.get? use = some (.use definition)) :
    store.records.objects.get? use = some (.use definition) ∨
      (∃ content, after.records.objects.get? ⟨.definition, definition⟩ = some content) ∨
        lost ⟨.definition, definition⟩ := by
  have builds := passes.builds linked
  rcases builds.mem_made found with old | new
  · exact .inl old
  right
  rcases passes.use_of_made linked intact.counted new found with
    ⟨original, target, named, copied | rfl⟩
  · exact .inl (builds.of_mem_made linked copied).2
  · rcases intact.definitions named with ⟨content, stored⟩ | gone
    · exact .inl ⟨content, (builds.grown linked).objects stored⟩
    · exact .inr gone

end RuleTree.Tree
