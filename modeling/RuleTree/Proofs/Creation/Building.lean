import RuleTree.Proofs.Block.Formatting
import RuleTree.Proofs.Tree.Ownership

/-!
# What a creation builds

A creation saves definitions, then objects, then nodes, and deletes nothing (`Creation.builds`).
If the sketch has no addresses of its own, every object is made for one part and gets one node, and
every definition that gets no node is named by a variable of the sketch.
-/

namespace RuleTree.Creation

open Step Store Records

variable {functions : Option Library} {store after : Store}

/-! ## Objects -/

theorem builds_createContent {data left : Fields} {ref : ContentRef}
    (done : createContent functions data store = (.ok (ref, left), after)) :
    ∃ made, Builds store.records made [] after.records ∧
      (Entries.get? "object_id" data = none → made = [ref]) := by
  rcases bind_eq_ok.mp done with ⟨kind, first, given, done⟩
  rcases give_eq_ok.mp given with ⟨_, rfl⟩
  cases number : (Entries.get? "object_id" data).bind Json.asInt? with
  | some id =>
      simp only [number] at done
      rcases bind_eq_ok.mp done with ⟨ref', middle, chosen, done⟩
      rcases pure_eq_ok.mp chosen with ⟨_, rfl⟩
      rcases pure_eq_ok.mp done with ⟨_, rfl⟩
      refine ⟨[], .refl, fun absent => ?_⟩
      rw [absent] at number
      cases number
  | none =>
      simp only [number] at done
      rcases bind_eq_ok.mp done with ⟨content, second, given, done⟩
      rcases give_eq_ok.mp given with ⟨_, rfl⟩
      rcases bind_eq_ok.mp done with ⟨ref', middle, saved, done⟩
      rcases saveObject_eq_ok.mp saved with ⟨rfl, rfl⟩
      rcases pure_eq_ok.mp done with ⟨same, rfl⟩
      rcases Prod.mk.inj same with ⟨rfl, _⟩
      exact ⟨_, .one_object store.records content, fun _ => rfl⟩

/-- The addresses in the data of stored parts, one by one. -/
abbrev Addresses : List Sketch → List ContentRef → Prop :=
  List.Forall₂ fun part ref => Stored part.data ref

theorem Addresses.append {first second : List Sketch} {refs refs' : List ContentRef}
    (left : Addresses first refs) (right : Addresses second refs') :
    Addresses (first ++ second) (refs ++ refs') := List.rel_append left right

theorem Addresses.split {first second : List Sketch} {refs : List ContentRef}
    (addresses : Addresses (first ++ second) refs) :
    ∃ left right, refs = left ++ right ∧ Addresses first left ∧ Addresses second right :=
  ⟨_, _, (List.take_append_drop first.length refs).symm,
    by simpa using List.forall₂_take first.length addresses,
    by simpa using List.forall₂_drop first.length addresses⟩

/-- The objects for the nodes of a stored sketch: one for each part, but none for a block. -/
def Wrapping (tree : Sketch) (refs : List ContentRef) : Prop :=
  if tree.isBlock then Addresses (Sketch.walkAll tree.children) refs else Addresses tree.walk refs

theorem Addresses.wrapping {tree : Sketch} {refs : List ContentRef}
    (addresses : Addresses tree.walk refs) : Wrapping tree refs := by
  rcases tree with ⟨data, children⟩
  unfold Wrapping
  split
  · -- A part without a kind of content names no object.
    rename_i block
    rcases addresses with _ | ⟨named, _⟩
    have absent : Entries.get? "content_type" data = none := Option.isNone_iff_eq_none.mp block
    simp [Stored, storedRef, kindOf, absent, bind, Except.bind] at named
  · exact addresses

mutual

/-- The objects of a sketch without addresses are those that its parts name afterwards. -/
theorem builds_createContents : ∀ {tree tree' : Sketch} {store after : Store},
    createContents functions tree store = (.ok tree', after) →
      ∃ made, Builds store.records made [] after.records ∧
        ((∀ part ∈ tree.walk, part.get? "object_id" = none) →
          ∀ refs, Wrapping tree' refs → refs.Perm made)
  | ⟨data, children⟩, tree', store, after, done => by
      rcases bind_eq_ok.mp done with ⟨children', middle, below, done⟩
      rcases builds_createAllContents below with ⟨made, builds, same⟩
      have same_below (plain : ∀ part ∈ Sketch.walk ⟨data, children⟩, part.get? "object_id" = none)
          (refs : List ContentRef) (addresses : Addresses (Sketch.walkAll children') refs) :
          refs.Perm made :=
        same (fun part member => plain part (List.mem_cons_of_mem _ member)) refs addresses
      split at done
      · rename_i block
        rcases pure_eq_ok.mp done with ⟨rfl, rfl⟩
        refine ⟨made, builds, fun plain refs wrapping => same_below plain refs ?_⟩
        unfold Wrapping at wrapping
        rw [if_pos block] at wrapping
        exact wrapping
      · rcases bind_eq_ok.mp done with ⟨⟨ref, data'⟩, last, created, done⟩
        rcases pure_eq_ok.mp done with ⟨rfl, rfl⟩
        rcases builds_createContent created with ⟨made', builds', own⟩
        refine ⟨made ++ made', by simpa using builds.trans builds', fun plain refs wrapping => ?_⟩
        rw [own (plain _ (List.mem_cons_self ..))]
        rcases createContent_spec created with ⟨_, rfl, _⟩
        have single : ¬(Sketch.isBlock ⟨storedData ref data, children'⟩ = true) := by
          simp [Sketch.isBlock, Sketch.get?, storedData, Entries.get?_insert]
        unfold Wrapping at wrapping
        rw [if_neg single] at wrapping
        rcases wrapping with _ | ⟨named, others⟩
        rcases stored_storedData named with rfl
        exact ((same_below plain _ others).cons _).trans (List.perm_append_singleton _ _).symm

theorem builds_createAllContents : ∀ {trees trees' : List Sketch} {store after : Store},
    createAllContents functions trees store = (.ok trees', after) →
      ∃ made, Builds store.records made [] after.records ∧
        ((∀ part ∈ Sketch.walkAll trees, part.get? "object_id" = none) →
          ∀ refs, Addresses (Sketch.walkAll trees') refs → refs.Perm made)
  | [], trees', store, after, done => by
      rcases pure_eq_ok.mp done with ⟨rfl, rfl⟩
      refine ⟨[], .refl, fun _ refs addresses => ?_⟩
      cases addresses
      exact .nil
  | tree :: rest, trees', store, after, done => by
      rcases bind_eq_ok.mp done with ⟨tree', middle, here, done⟩
      rcases bind_eq_ok.mp done with ⟨rest', last, others, done⟩
      rcases pure_eq_ok.mp done with ⟨rfl, rfl⟩
      rcases builds_createContents here with ⟨made, builds, same⟩
      rcases builds_createAllContents others with ⟨made', builds', same'⟩
      refine ⟨made ++ made', by simpa using builds.trans builds', fun plain refs addresses => ?_⟩
      rcases addresses.split with ⟨left, right, rfl, first, second⟩
      exact (same (fun part member => plain part (List.mem_append_left _ member)) _
        first.wrapping).append
        (same' (fun part member => plain part (List.mem_append_right _ member)) _ second)

end

/-- Every part that is no block describes a stored object, and every new object is described by a
part. -/
structure Realized (functions : Option Library) (parts : List Sketch) (before after : Records) :
    Prop where
  stored : ∀ part ∈ parts, part.isBlock = false → ∃ ref, Described functions after part.data ref
  objects : ∀ {ref content}, after.objects.get? ref = some content →
    before.objects.get? ref = some content ∨
      ∃ part ∈ parts, Described functions after part.data ref

theorem Described.kept {before after : Records} {data : Fields} {ref : ContentRef}
    (described : Described functions before data ref)
    (kept : ∀ content, before.objects.get? ref = some content →
      after.objects.get? ref = some content) : Described functions after data ref := by
  rcases described with ⟨content, kind_eq, eq, found⟩
  exact ⟨content, kind_eq, eq, kept content found⟩

theorem Realized.append {first second : List Sketch} {before middle after : Records}
    {made : List ContentRef} (left : Realized functions first before middle)
    (right : Realized functions second middle after) (linked : Linked middle)
    (builds : Builds middle made [] after) : Realized functions (first ++ second) before after where
  stored part member single := by
    rcases List.mem_append.mp member with member | member
    · rcases left.stored part member single with ⟨ref, described⟩
      exact ⟨ref, described.kept fun _ found => (builds.grown linked).objects found⟩
    · exact right.stored part member single
  objects found := by
    rcases right.objects found with old | ⟨part, member, described⟩
    · rcases left.objects old with older | ⟨part, member, described⟩
      · exact .inl older
      · refine .inr ⟨part, List.mem_append_left _ member, ?_⟩
        exact described.kept fun _ found => (builds.grown linked).objects found
    · exact .inr ⟨part, List.mem_append_right _ member, described⟩

theorem Realized.perm {first second : List Sketch} {before after : Records}
    (realized : Realized functions first before after) (same : first.Perm second) :
    Realized functions second before after where
  stored part member := realized.stored part (same.symm.subset member)
  objects found := by
    rcases realized.objects found with old | ⟨part, member, described⟩
    · exact .inl old
    · exact .inr ⟨part, same.subset member, described⟩

theorem realized_createContent {data left : Fields} {children : List Sketch} {ref : ContentRef}
    (plain : Entries.get? "object_id" data = none)
    (done : createContent functions data store = (.ok (ref, left), after)) :
    Realized functions [⟨data, children⟩] store.records after.records := by
  rcases createContent_spec done with ⟨_, _, kind_eq, ⟨number, _⟩ | ⟨_, content, eq, found⟩⟩
  · simp [plain] at number
  · have kinds := kind_contentOf eq
    have described : Described functions after.records data ref :=
      ⟨content, by rw [kinds, kind_eq], by rw [kinds, eq], found⟩
    constructor
    · intro part member _
      rcases List.mem_singleton.mp member with rfl
      exact ⟨ref, described⟩
    · intro other object found'
      rcases builds_createContent done with ⟨made, builds, own⟩
      rcases builds.mem_made found' with old | new
      · exact .inl old
      · rw [own plain] at new
        rcases List.mem_singleton.mp new with rfl
        exact .inr ⟨_, List.mem_singleton_self _, described⟩

mutual

theorem realized_createContents : ∀ {tree tree' : Sketch} {store after : Store},
    createContents functions tree store = (.ok tree', after) → Linked store.records →
      (∀ part ∈ tree.walk, part.get? "object_id" = none) →
        Realized functions tree.walk store.records after.records
  | ⟨data, children⟩, tree', store, after, done, linked, plain => by
      rcases bind_eq_ok.mp done with ⟨children', middle, below, done⟩
      rcases builds_createAllContents below with ⟨_, builds, _⟩
      have inner := realized_createAllContents below linked fun part member =>
        plain part (List.mem_cons_of_mem _ member)
      split at done
      · rename_i block
        rcases pure_eq_ok.mp done with ⟨rfl, rfl⟩
        constructor
        · intro part member single
          rcases List.mem_cons.mp member with rfl | member
          · exact absurd (block.symm.trans single) (by simp)
          · exact inner.stored part member single
        · intro ref content found
          rcases inner.objects found with old | ⟨part, member, described⟩
          · exact .inl old
          · exact .inr ⟨part, List.mem_cons_of_mem _ member, described⟩
      · rcases bind_eq_ok.mp done with ⟨⟨ref, data'⟩, last, created, done⟩
        rcases pure_eq_ok.mp done with ⟨rfl, rfl⟩
        rcases builds_createContent created with ⟨_, builds', own⟩
        have absent : Entries.get? "object_id" data = none := plain _ (List.mem_cons_self ..)
        rcases own absent with rfl
        have outer : Realized functions [⟨data, children⟩] _ _ :=
          realized_createContent absent created
        exact (inner.append outer (builds.linked linked) builds').perm
          (List.perm_append_singleton _ _)

theorem realized_createAllContents : ∀ {trees trees' : List Sketch} {store after : Store},
    createAllContents functions trees store = (.ok trees', after) → Linked store.records →
      (∀ part ∈ Sketch.walkAll trees, part.get? "object_id" = none) →
        Realized functions (Sketch.walkAll trees) store.records after.records
  | [], trees', store, after, done, _, _ => by
      rcases pure_eq_ok.mp done with ⟨_, rfl⟩
      exact ⟨by simp [Sketch.walkAll], .inl⟩
  | tree :: rest, trees', store, after, done, linked, plain => by
      rcases bind_eq_ok.mp done with ⟨tree', middle, here, done⟩
      rcases bind_eq_ok.mp done with ⟨rest', last, others, done⟩
      rcases pure_eq_ok.mp done with ⟨rfl, rfl⟩
      rcases builds_createContents here with ⟨_, builds, _⟩
      rcases builds_createAllContents others with ⟨_, builds', _⟩
      have linked_middle := builds.linked linked
      exact (realized_createContents here linked fun part member =>
        plain part (List.mem_append_left _ member)).append
          (realized_createAllContents others linked_middle fun part member =>
            plain part (List.mem_append_right _ member)) linked_middle builds'

end

/-- A variable that was bound by name uses the definition of the name. -/
theorem use_of_described {names : Names} {part : Sketch} {name : String} {definition : ObjectId}
    {records : Records} {ref : ContentRef} (used : usedName? part = some name)
    (found : names.get? name = some definition)
    (described : Described functions records (bindData names part.data) ref) :
    records.objects.get? ref = some (.use definition) ∧ Word.InRange definition.val := by
  rcases part with ⟨data, children⟩
  have kind : Sketch.kind? ⟨data, children⟩ = some .use := by
    unfold usedName? at used
    split at used
    · assumption
    · cases used
  have used_data : usedName? ⟨data, []⟩ = some name := used
  have number : Entries.get? "definition_id" (bindData names data) =
      some (.int definition.val) := by
    unfold bindData
    rw [used_data, Option.bind_some, found]
    simp [Entries.get?_insert]
  rcases described with ⟨content, kind_eq, described, stored⟩
  have kind_use : content.kind = .use := by
    have named : Sketch.kind? ⟨bindData names data, children⟩ = some content.kind :=
      kindOf_eq_ok.mp kind_eq
    rw [kind?_bindData names data children children, kind] at named
    exact (Option.some.inj named).symm
  rw [kind_use] at described
  simp only [contentOf, number, Option.bind_some, asInt?_int] at described
  by_cases range : Word.InRange definition.val
  · rw [if_pos range] at described
    cases described
    exact ⟨stored, range⟩
  · rw [if_neg range] at described
    cases described

/-! ## Definitions -/

/-- Each new name has the definition that was made for it. -/
theorem builds_defineNames {names result : Names} {fresh : List String} {parts : List Sketch}
    (distinct : fresh.Nodup)
    (done : defineNames names fresh store = (.ok (result, parts), after)) :
    ∃ owns, Builds store.records owns [] after.records ∧
      List.Forall₂ (fun own part => ∃ name, part = definitionSketch own name) owns parts ∧
      (∀ own ∈ owns, own.kind = .definition ∧
        ∃ name ∈ fresh, result.get? name = some own.id) ∧
      (∀ name ∈ fresh, ∃ own ∈ owns, result.get? name = some own.id) ∧
      ∀ name, name ∉ fresh → result.get? name = names.get? name := by
  induction fresh generalizing names store parts with
  | nil =>
      rcases pure_eq_ok.mp done with ⟨same, rfl⟩
      cases same
      exact ⟨[], .refl, .nil, by simp, by simp, by simp⟩
  | cons name rest ih =>
      rcases List.nodup_cons.mp distinct with ⟨new, distinct⟩
      rcases defineNames_cons_eq_ok done with ⟨others, rfl, defined⟩
      rcases ih distinct defined with ⟨owns, builds, parts, own_names, name_owns, frame⟩
      have first := Builds.one_object store.records (.definition name none)
      have here : result.get? name = some ⟨store.records.lastObject + 1⟩ := by
        rw [frame name new, Table.get?_insert, if_pos rfl]
      refine ⟨_, first.trans builds, .cons ⟨name, rfl⟩ parts, ?_, ?_, ?_⟩
      · intro own member
        rcases List.mem_cons.mp member with rfl | later
        · exact ⟨rfl, name, by simp, here⟩
        · rcases own_names own later with ⟨kind, other, other_mem, found⟩
          exact ⟨kind, other, by simp [other_mem], found⟩
      · intro other member
        rcases List.mem_cons.mp member with rfl | later
        · exact ⟨_, List.mem_cons_self .., here⟩
        · rcases name_owns other later with ⟨own, own_mem, found⟩
          exact ⟨own, List.mem_cons_of_mem _ own_mem, found⟩
      · intro other absent
        rw [List.mem_cons, not_or] at absent
        rw [frame other absent.2, Table.get?_insert, if_neg (Ne.symm absent.1)]

theorem builds_createDefinitions {parent : NodeId} {position : Nat} {owns : List ContentRef}
    {parts : List Sketch}
    (given : List.Forall₂ (fun own part => ∃ name, part = definitionSketch own name) owns parts)
    (done : createDefinitions functions parent position parts store = (.ok (), after)) :
    ∃ made refs, Builds store.records made refs after.records ∧
      ((∀ own ∈ owns, Word.InRange own.id.val) → made = [] ∧ refs = owns) := by
  induction given generalizing position store with
  | nil =>
      rcases pure_eq_ok.mp done with ⟨_, rfl⟩
      exact ⟨[], [], .refl, fun _ => ⟨rfl, rfl⟩⟩
  | @cons own part owns parts here _ ih =>
      rcases here with ⟨name, rfl⟩
      rcases bind_eq_ok.mp done with ⟨⟨ref, left⟩, first, created, done⟩
      rcases bind_eq_ok.mp done with ⟨node, second, saved, done⟩
      rcases Store.saveNode_eq_ok.mp saved with ⟨records, saved_node, rfl⟩
      rcases ih done with ⟨made, refs, others, exact_others⟩
      by_cases range : Word.InRange own.id.val
      · rw [createContent_definitionSketch range] at created
        cases created
        refine ⟨made, own :: refs, (Builds.one_node saved_node).trans others, fun ranges => ?_⟩
        rcases exact_others fun other member => ranges other (by simp [member]) with ⟨rfl, rfl⟩
        exact ⟨rfl, rfl⟩
      · rcases builds_createContent created with ⟨made', builds, _⟩
        refine ⟨_, _, (builds.trans (.one_node saved_node)).trans others, fun ranges => ?_⟩
        exact absurd (ranges own (by simp)) range

/-- The new objects are definitions without a source. -/
theorem objects_defineNames {names result : Names} {fresh : List String} {parts : List Sketch}
    (done : defineNames names fresh store = (.ok (result, parts), after)) {ref : ContentRef}
    {content : Content} (found : after.records.objects.get? ref = some content) :
    store.records.objects.get? ref = some content ∨ ∃ name, content = .definition name none := by
  induction fresh generalizing names store parts with
  | nil =>
      rcases pure_eq_ok.mp done with ⟨_, rfl⟩
      exact .inl found
  | cons name rest ih =>
      rcases defineNames_cons_eq_ok done with ⟨others, rfl, defined⟩
      rcases ih defined with old | new
      · rcases get?_insertObject_cases old with ⟨_, rfl⟩ | ⟨_, old⟩
        · exact .inr ⟨name, rfl⟩
        · exact .inl old
      · exact .inr new

/-! ## Nodes -/

mutual

theorem builds_createNodes {parent : NodeId} {position : Nat} : ∀ {tree : Sketch}
    {store after : Store}, createNodes parent position tree store = (.ok (), after) →
      ∃ refs, Addresses tree.walk refs ∧ Builds store.records [] refs after.records
  | ⟨data, children⟩, store, after, done => by
      rcases bind_eq_ok.mp done with ⟨ref, first, given, done⟩
      rcases give_eq_ok.mp given with ⟨named, rfl⟩
      rcases bind_eq_ok.mp done with ⟨node, second, saved, done⟩
      rcases Store.saveNode_eq_ok.mp saved with ⟨records, saved_node, rfl⟩
      rcases builds_createNodesFrom done with ⟨refs, addresses, builds⟩
      exact ⟨ref :: refs, .cons named addresses, (Builds.one_node saved_node).trans builds⟩

theorem builds_createNodesFrom {parent : NodeId} {position : Nat} : ∀ {trees : List Sketch}
    {store after : Store}, createNodesFrom parent position trees store = (.ok (), after) →
      ∃ refs, Addresses (Sketch.walkAll trees) refs ∧ Builds store.records [] refs after.records
  | [], store, after, done => by
      rcases pure_eq_ok.mp done with ⟨_, rfl⟩
      exact ⟨[], .nil, .refl⟩
  | tree :: rest, store, after, done => by
      rcases bind_eq_ok.mp done with ⟨_, middle, here, done⟩
      rcases builds_createNodes here with ⟨refs, addresses, builds⟩
      rcases builds_createNodesFrom done with ⟨refs', addresses', builds'⟩
      exact ⟨refs ++ refs', addresses.append addresses', builds.trans builds'⟩

end

/-- The nodes of a block are those of its definitions and of its statements. -/
theorem builds_createTree {owns : List ContentRef} {parts : List Sketch} {tree : Sketch}
    {root : Node}
    (given : List.Forall₂ (fun own part => ∃ name, part = definitionSketch own name) owns parts)
    (done : createTree functions parts tree store = (.ok root, after)) :
    ∃ made wrapped, Builds store.records made wrapped after.records ∧
      ((∀ own ∈ owns, Word.InRange own.id.val) → made = [] ∧
        ∃ heads refs, wrapped = heads ++ refs ∧ (heads = owns ∨ heads = []) ∧
          Wrapping tree refs) := by
  rcases tree with ⟨data, children⟩
  unfold createTree at done
  split at done
  · rename_i block
    rcases bind_eq_ok.mp done with ⟨root', first, saved, done⟩
    rcases Store.saveNode_eq_ok.mp saved with ⟨records, saved_root, rfl⟩
    rcases bind_eq_ok.mp done with ⟨_, second, defined, done⟩
    rcases bind_eq_ok.mp done with ⟨_, third, created, done⟩
    rcases pure_eq_ok.mp done with ⟨_, rfl⟩
    rcases builds_createDefinitions given defined with ⟨made, wrapped, builds, exact_builds⟩
    rcases builds_createNodesFrom created with ⟨refs, addresses, builds'⟩
    refine ⟨made, wrapped ++ refs, ?_, fun range => ?_⟩
    · simpa using ((Builds.root .refl saved_root).trans builds).trans builds'
    · rcases exact_builds range with ⟨rfl, rfl⟩
      refine ⟨rfl, _, refs, rfl, .inl rfl, ?_⟩
      unfold Wrapping
      rw [if_pos block]
      exact addresses
  · rename_i single
    rcases bind_eq_ok.mp done with ⟨ref, zeroth, given_ref, done⟩
    rcases give_eq_ok.mp given_ref with ⟨named, rfl⟩
    rcases bind_eq_ok.mp done with ⟨root', first, saved, done⟩
    rcases Store.saveNode_eq_ok.mp saved with ⟨records, saved_root, rfl⟩
    rcases bind_eq_ok.mp done with ⟨_, third, created, done⟩
    rcases pure_eq_ok.mp done with ⟨_, rfl⟩
    rcases builds_createNodesFrom created with ⟨refs, addresses, builds⟩
    refine ⟨[], _, (Builds.one_node saved_root).trans builds, fun _ => ?_⟩
    refine ⟨rfl, [], _, rfl, .inr rfl, ?_⟩
    unfold Wrapping
    rw [if_neg single]
    exact .cons named addresses

/-! ## Whole creations -/

/-- The passes of a creation that succeeded: definitions for the names that had none, then the
objects of the sketch with its variables bound, then its nodes. -/
structure Passes (functions : Option Library) (store : Store) (tree : Sketch) (names : Names)
    (owns : List ContentRef) (first second : Store) (root : Node) (after : Store) : Prop where
  defining : Builds store.records owns [] first.records
  named : ∀ own ∈ owns, own.kind = .definition ∧
    ∃ part ∈ tree.walk, ∃ name, usedName? part = some name ∧ names.get? name = some own.id
  local_definitions : ∀ {ref content}, first.records.objects.get? ref = some content →
    store.records.objects.get? ref = some content ∨ ∃ name, content = .definition name none
  bound : ∀ {name definition}, names.get? name = some definition →
    ⟨.definition, definition⟩ ∈ owns ∨
      ∃ source, store.records.objects.get? ⟨.definition, definition⟩ =
        some (.definition name (some source))
  later : ∃ contents parts,
    createContents functions (tree.mapData (bindData names)) first = (.ok contents, second) ∧
      List.Forall₂ (fun own part => ∃ name, part = definitionSketch own name) owns parts ∧
        createTree functions parts contents second = (.ok root, after)

theorem create_passes {tree : Sketch} {version : Option Version} {root : Node}
    (done : create functions tree version store = (.ok root, after)) :
    ∃ names owns first second, Passes functions store tree names owns first second root after := by
  rcases create_steps done with
    ⟨external, parts, bound, contents, first, second, _, bindings, _, created, done⟩
  rcases bind_eq_ok.mp bindings with ⟨known, zeroth, listed, bindings⟩
  rcases bind_eq_ok.mp bindings with ⟨⟨names, parts'⟩, third, defined, bindings⟩
  rcases pure_eq_ok.mp bindings with ⟨same, rfl⟩
  cases same
  have unchanged := (readsOnly_externalNames _ _).of_ok listed
  have declared := declared_externalNames listed fun _ _ impossible => by cases impossible
  rcases builds_defineNames (nodup_eraseDups _) defined with
    ⟨owns, defining, given, own_names, name_owns, frame⟩
  rw [unchanged] at defining
  refine ⟨names, owns, third, second,
    { defining, named := ?_, local_definitions := ?_, bound := ?_
      later := ⟨contents, parts, created, given, done⟩ }⟩
  · intro own member
    rcases own_names own member with ⟨kind, name, name_mem, found⟩
    rcases List.mem_filter.mp (List.mem_eraseDups.mp name_mem) with ⟨name_mem, _⟩
    rcases List.mem_filterMap.mp name_mem with ⟨part, part_mem, uses⟩
    exact ⟨kind, part, part_mem, name, uses, found⟩
  · intro ref content found
    have cases_of := objects_defineNames defined found
    rwa [unchanged] at cases_of
  · intro name definition found
    by_cases new : name ∈ newNames known tree
    · rcases name_owns name new with ⟨own, own_mem, own_found⟩
      rw [found] at own_found
      rcases own with ⟨kind, id⟩
      cases own_found
      cases (own_names _ own_mem).1
      exact .inl own_mem
    · rw [frame name new] at found
      exact .inr (declared name definition found)

/-- Whatever the sketch is, creating it builds. -/
theorem builds {tree : Sketch} {version : Option Version} {root : Node}
    (done : create functions tree version store = (.ok root, after)) :
    ∃ made wrapped, Builds store.records made wrapped after.records := by
  rcases create_passes done with ⟨names, owns, first, second, passes⟩
  rcases passes.later with ⟨contents, parts, created, given, done⟩
  rcases builds_createContents created with ⟨made, storing, _⟩
  rcases builds_createTree given done with ⟨made', wrapped, planting, _⟩
  exact ⟨_, _, (passes.defining.trans storing).trans planting⟩

section Plain

variable {tree : Sketch} {names : Names} {owns : List ContentRef} {first second : Store}
  {root : Node}

theorem isBlock_of_usedName {part : Sketch} {name : String} (used : usedName? part = some name) :
    (part.mapData (bindData names)).isBlock = false := by
  have kind : part.kind? = some .use := by
    unfold usedName? at used
    split at used
    · assumption
    · cases used
  rcases part with ⟨data, children⟩
  rw [Sketch.mapData, isBlock_bindData names data _ children]
  cases tag : Entries.get? "content_type" data with
  | none => simp [Sketch.kind?, Sketch.getStr?, Sketch.get?, tag] at kind
  | some json => simp [Sketch.isBlock, Sketch.get?, tag]

/-- A variable of a stored sketch that goes by a name uses the definition of the name, and this has
a 64-bit number. -/
theorem use_of_created {contents : Sketch}
    (created : createContents functions (tree.mapData (bindData names)) first =
      (.ok contents, second))
    (linked : Linked first.records) (plain : ∀ part ∈ tree.walk, part.get? "object_id" = none)
    {part : Sketch} {name : String} {definition : ObjectId} (member : part ∈ tree.walk)
    (used : usedName? part = some name) (found : names.get? name = some definition) :
    Word.InRange definition.val ∧
      ∃ use, second.records.objects.get? use = some (.use definition) := by
  have realized := realized_createContents created linked (plain_mapData plain)
  have bound_mem : part.mapData (bindData names) ∈ (tree.mapData (bindData names)).walk := by
    rw [walk_mapData]
    exact List.mem_map.mpr ⟨part, member, rfl⟩
  rcases realized.stored _ bound_mem (isBlock_of_usedName used) with ⟨use, described⟩
  rw [data_mapData] at described
  rcases use_of_described used found described with ⟨stored, range⟩
  exact ⟨range, use, stored⟩

/-- Without addresses in the sketch, every new definition is one that a variable of it names. -/
theorem Passes.used (passes : Passes functions store tree names owns first second root after)
    (linked : Linked store.records) (plain : ∀ part ∈ tree.walk, part.get? "object_id" = none) :
    ∀ own ∈ owns, Word.InRange own.id.val ∧
      ∃ use, second.records.objects.get? use = some (.use own.id) := by
  rcases passes.later with ⟨contents, parts, created, _, _⟩
  intro own member
  rcases passes.named own member with ⟨_, part, part_mem, name, uses, found⟩
  exact use_of_created created (passes.defining.linked linked) plain part_mem uses found

/-- Without addresses in the sketch, different new objects get nodes, and what gets none is a
definition that a variable of the sketch names. -/
theorem builds_plain {version : Option Version} (linked : Linked store.records)
    (plain : ∀ part ∈ tree.walk, part.get? "object_id" = none)
    (done : create functions tree version store = (.ok root, after)) :
    ∃ made wrapped, Builds store.records made wrapped after.records ∧ wrapped.Nodup ∧
      (∀ ref ∈ wrapped, ref ∈ made) ∧ ∀ ref ∈ made, ref ∈ wrapped ∨ after.records.Spare ref := by
  rcases create_passes done with ⟨names, owns, first, second, passes⟩
  have used := passes.used linked plain
  rcases passes.later with ⟨contents, parts, created, given, done⟩
  rcases builds_createContents created with ⟨made, storing, same⟩
  rcases builds_createTree given done with ⟨made', wrapped, planting, exact_planting⟩
  rcases exact_planting fun own member => (used own member).1 with
    ⟨rfl, heads, refs, rfl, heads_eq, wrapping⟩
  have exact_refs := same (plain_mapData plain) refs wrapping
  have storing_all := passes.defining.trans storing
  have distinct := storing_all.nodup_made linked
  refine ⟨owns ++ made, heads ++ refs, by simpa using storing_all.trans planting, ?_, ?_, ?_⟩
  · have all : (owns ++ refs).Nodup := (exact_refs.append_left owns).nodup_iff.mpr distinct
    rcases heads_eq with rfl | rfl
    · exact all
    · exact all.of_append_right
  · intro ref member
    rcases List.mem_append.mp member with head | below
    · rcases heads_eq with rfl | rfl
      · exact List.mem_append_left _ head
      · cases head
    · exact List.mem_append_right _ (exact_refs.subset below)
  · intro ref member
    rcases List.mem_append.mp member with own | below
    · rcases (used ref own).2 with ⟨use, stored⟩
      refine .inr ⟨(passes.named ref own).1, fun _ => ⟨use, ?_⟩⟩
      exact (planting.grown (storing_all.linked linked)).objects stored
    · exact .inl (List.mem_append_right _ (exact_refs.symm.subset below))

theorem Passes.grown (passes : Passes functions store tree names owns first second root after)
    (linked : Linked store.records) : Grown (fun _ => True) first.records after.records := by
  rcases passes.later with ⟨contents, parts, created, given, done⟩
  rcases builds_createContents created with ⟨_, storing, _⟩
  rcases builds_createTree given done with ⟨_, _, planting, _⟩
  exact (storing.trans planting).grown (passes.defining.linked linked)

/-- Without addresses in the sketch, an object is old, a local definition, or what a part describes
with its variable bound. -/
theorem Passes.objects (passes : Passes functions store tree names owns first second root after)
    (linked : Linked store.records) (plain : ∀ part ∈ tree.walk, part.get? "object_id" = none)
    {ref : ContentRef} {content : Content} (found : after.records.objects.get? ref = some content) :
    store.records.objects.get? ref = some content ∨ (∃ name, content = .definition name none) ∨
      ∃ part ∈ tree.walk,
        contentOf functions content.kind (bindData names part.data) = .ok content := by
  have used := passes.used linked plain
  rcases passes.later with ⟨contents, parts, created, given, done⟩
  rcases builds_createTree given done with ⟨made, wrapped, planting, exact_planting⟩
  rcases exact_planting fun own member => (used own member).1 with ⟨rfl, _⟩
  have realized := realized_createContents created (passes.defining.linked linked)
    (plain_mapData plain)
  rcases planting.mem_made found with here | impossible
  · rcases realized.objects here with old | ⟨part, member, content', _, described, stored⟩
    · exact (passes.local_definitions old).imp_right .inl
    · rw [here] at stored
      cases stored
      rw [walk_mapData] at member
      rcases List.mem_map.mp member with ⟨part, part_mem, rfl⟩
      rw [data_mapData] at described
      exact .inr (.inr ⟨part, part_mem, described⟩)
  · cases impossible

/-- A variable that was made names a new definition or one with a source. -/
theorem use_of_create {version : Option Version} (linked : Linked store.records)
    (plain : ∀ part ∈ tree.walk, part.get? "object_id" = none)
    (unbound : ∀ part ∈ tree.walk, part.get? "definition_id" = none)
    (done : create functions tree version store = (.ok root, after)) {use : ContentRef}
    {definition : ObjectId} (found : after.records.objects.get? use = some (.use definition)) :
    store.records.objects.get? use = some (.use definition) ∨
      (store.records.objects.get? ⟨.definition, definition⟩ = none ∧
        ∃ content, after.records.objects.get? ⟨.definition, definition⟩ = some content) ∨
        ∃ name source, store.records.objects.get? ⟨.definition, definition⟩ =
          some (.definition name (some source)) := by
  rcases create_passes done with ⟨names, owns, first, second, passes⟩
  rcases passes.objects linked plain found with old | ⟨_, impossible⟩ | ⟨part, member, described⟩
  · exact .inl old
  · cases impossible
  · rcases name_of_described (unbound part member) described with ⟨name, _, bound⟩
    rcases passes.bound bound with own | ⟨source, stored⟩
    · rcases (passes.defining.of_mem_made linked own).2 with ⟨content, stored⟩
      exact .inr (.inl ⟨passes.defining.absent_of_mem_made linked own, content,
        (passes.grown linked).objects stored⟩)
    · exact .inr (.inr ⟨name, source, stored⟩)

/-- Definitions with a source are not made. -/
theorem external_of_create {version : Option Version} (linked : Linked store.records)
    (plain : ∀ part ∈ tree.walk, part.get? "object_id" = none)
    (done : create functions tree version store = (.ok root, after)) {ref : ContentRef}
    {name : String} {source : Source}
    (found : after.records.objects.get? ref = some (.definition name (some source))) :
    store.records.objects.get? ref = some (.definition name (some source)) := by
  rcases create_passes done with ⟨names, owns, first, second, passes⟩
  rcases passes.objects linked plain found with old | ⟨_, impossible⟩ | ⟨part, _, described⟩
  · exact old
  · cases impossible
  · rcases Answer.bind_eq_ok.mp described with ⟨_, _, impossible⟩
    cases impossible

/-- The variables of a sketch without addresses and numbers of definitions name stored
definitions. -/
theorem named_of_written {version : Option Version} (linked : Linked store.records)
    (written : ∀ part ∈ tree.walk, Written part.data)
    (done : create functions tree version store = (.ok root, after)) {use : ContentRef}
    {definition : ObjectId} (found : after.records.objects.get? use = some (.use definition)) :
    store.records.objects.get? use = some (.use definition) ∨
      ∃ content, after.records.objects.get? ⟨.definition, definition⟩ = some content := by
  rcases use_of_create linked (fun part member => (written part member).no_object)
    (fun part member => (written part member).no_definition) done found with
    old | ⟨_, stored⟩ | ⟨name, source, external⟩
  · exact .inl old
  · exact .inr stored
  · rcases builds done with ⟨_, _, builds⟩
    exact .inr ⟨_, (builds.grown linked).objects external⟩

end Plain

/-- A document names no addresses and no numbers of definitions. -/
theorem create_of_imported {document : String} {version : Option Version} {root : Node}
    (done : importDocument functions document version store = (.ok root, after)) :
    ∃ tree, (∀ part ∈ tree.walk, Written part.data) ∧
      create functions tree version store = (.ok root, after) := by
  rcases Block.importDocument_eq_ok.mp done with ⟨statements, read, created⟩
  exact ⟨_, Block.written_of_read read, created⟩

end RuleTree.Creation
