import RuleTree.Proofs.Creation.Nodes

/-!
# The objects of a stored sketch

Storing the objects of a sketch leaves all nodes as they are.  The data of the sketch then name the
objects that they described before (`Creation.Mirrors.described`), and every name that a variable
used has a definition with this name (`Creation.defineNames_spec`).
-/

namespace RuleTree.Creation

open Step Store Records

variable {functions : Option Library} {store after : Store}

/-! ## What data describe -/

theorem kind_contentOf {kind : Kind} {data : Fields} {content : Content}
    (described : contentOf functions kind data = .ok content) : content.kind = kind := by
  cases kind with
  | use =>
      simp only [contentOf] at described
      split at described
      · cases described
        rfl
      · cases described
  | date =>
      rcases Answer.bind_eq_ok.mp described with ⟨raw, _, described⟩
      split at described
      · cases described
        rfl
      · cases described
  | reference =>
      rcases Answer.bind_eq_ok.mp described with ⟨model, _, described⟩
      rcases Answer.bind_eq_ok.mp described with ⟨id, _, described⟩
      cases described
      rfl
  | assignment =>
      cases described
      rfl
  | call =>
      rcases Answer.bind_eq_ok.mp described with ⟨title, _, described⟩
      split at described
      · split at described
        · cases described
          rfl
        · cases described
      · cases described
        rfl
  | _ =>
      rcases Answer.bind_eq_ok.mp described with ⟨value, _, described⟩
      cases described
      rfl

theorem kindOf_storedData (ref : ContentRef) (data : Fields) :
    kindOf (storedData ref data) = .ok ref.kind := by
  simp [kindOf, storedData, Entries.get?_insert, Json.asStr?, Kind.ofTag?_tag]

theorem asInt?_int (n : Int) : Json.asInt? (.int n) = if Word.InRange n then some n else none := by
  unfold Json.asInt? Json.asInt64?
  by_cases range : Word.InRange n
  · have word : Word.ofInt? n = some (Int64.ofInt n) := by simp [Word.ofInt?, range]
    simp [word, Word.toInt_of_ofInt? word, range]
  · simp [Word.ofInt?_eq_none_iff.mpr range, range]

/-- The data of a stored object name its address, as long as this is a 64-bit number. -/
theorem storedRef_storedData (ref : ContentRef) (data : Fields) :
    storedRef (storedData ref data) =
      if Word.InRange ref.id.val then .ok ref else .error (.missingData "object_id") := by
  have entry : Entries.get? "object_id" (storedData ref data) = some (.int ref.id.val) := by
    simp [storedData, Entries.get?_insert]
  unfold storedRef
  rw [kindOf_storedData, entry, Option.bind_some, asInt?_int]
  by_cases range : Word.InRange ref.id.val <;> simp [range, bind, Except.bind]

theorem stored_storedData {ref other : ContentRef} {data : Fields}
    (named : Stored (storedData ref data) other) : other = ref := by
  unfold Stored at named
  rw [storedRef_storedData] at named
  split at named
  · exact (Except.ok.inj named).symm
  · cases named

/-! ## Storing objects -/

/-- Data with an address of their own only name an object; from all others an object is made. -/
theorem createContent_spec {data left : Fields} {ref : ContentRef}
    (done : createContent functions data store = (.ok (ref, left), after)) :
    ObjectsOnly store.records after.records ∧ left = storedData ref data ∧
      kindOf data = .ok ref.kind ∧
        ((Entries.get? "object_id" data).bind Json.asInt? = some ref.id.val ∧ after = store ∨
          (Entries.get? "object_id" data).bind Json.asInt? = none ∧
            ∃ content, contentOf functions ref.kind data = .ok content ∧
              after.records.objects.get? ref = some content) := by
  rcases bind_eq_ok.mp done with ⟨kind, first, given, done⟩
  rcases give_eq_ok.mp given with ⟨kind_eq, rfl⟩
  cases number : (Entries.get? "object_id" data).bind Json.asInt? with
  | some id =>
      simp only [number] at done
      rcases bind_eq_ok.mp done with ⟨ref', middle, chosen, done⟩
      rcases pure_eq_ok.mp chosen with ⟨rfl, rfl⟩
      rcases pure_eq_ok.mp done with ⟨same, rfl⟩
      rcases Prod.mk.inj same with ⟨rfl, rfl⟩
      exact ⟨.refl, rfl, kind_eq, .inl ⟨rfl, rfl⟩⟩
  | none =>
      simp only [number] at done
      rcases bind_eq_ok.mp done with ⟨content, second, given, done⟩
      rcases give_eq_ok.mp given with ⟨described, rfl⟩
      rcases bind_eq_ok.mp done with ⟨ref', middle, saved, done⟩
      rcases saveObject_eq_ok.mp saved with ⟨rfl, rfl⟩
      rcases pure_eq_ok.mp done with ⟨same, rfl⟩
      rcases Prod.mk.inj same with ⟨rfl, rfl⟩
      have kinds := kind_contentOf described
      subst kinds
      exact ⟨.saveObject _ content, rfl, kind_eq, .inr ⟨rfl, content, described, by simp⟩⟩

mutual

theorem createContents_objectsOnly : ∀ {tree tree' : Sketch} {store after : Store},
    createContents functions tree store = (.ok tree', after) →
      ObjectsOnly store.records after.records
  | ⟨data, children⟩, tree', store, after, done => by
      rcases bind_eq_ok.mp done with ⟨children', middle, below, done⟩
      have first := createAllContents_objectsOnly below
      split at done
      · rcases pure_eq_ok.mp done with ⟨_, rfl⟩
        exact first
      · rcases bind_eq_ok.mp done with ⟨⟨ref, data'⟩, last, created, done⟩
        rcases pure_eq_ok.mp done with ⟨_, rfl⟩
        exact first.trans (createContent_spec created).1

theorem createAllContents_objectsOnly : ∀ {trees trees' : List Sketch} {store after : Store},
    createAllContents functions trees store = (.ok trees', after) →
      ObjectsOnly store.records after.records
  | [], trees', store, after, done => by
      rcases pure_eq_ok.mp done with ⟨_, rfl⟩
      exact .refl
  | tree :: rest, trees', store, after, done => by
      rcases bind_eq_ok.mp done with ⟨tree', middle, here, done⟩
      rcases bind_eq_ok.mp done with ⟨rest', last, others, done⟩
      rcases pure_eq_ok.mp done with ⟨_, rfl⟩
      exact (createContents_objectsOnly here).trans (createAllContents_objectsOnly others)

end

/-- An object is the one that data describe. -/
def Described (functions : Option Library) (records : Records) (data : Fields)
    (ref : ContentRef) : Prop :=
  ∃ content, kindOf data = .ok content.kind ∧
    contentOf functions content.kind data = .ok content ∧
      records.objects.get? ref = some content

/-- Without a library to check calls against, data describe what they describe with one. -/
theorem Described.unchecked {records : Records} {data : Fields} {ref : ContentRef}
    (described : Described functions records data ref) : Described none records data ref := by
  rcases described with ⟨content, kind_eq, described, stored⟩
  refine ⟨content, kind_eq, ?_, stored⟩
  cases content with
  | call title =>
      rcases Answer.bind_eq_ok.mp described with ⟨title', required, described⟩
      refine Answer.bind_eq_ok.mpr ⟨title', required, ?_⟩
      split at described
      · split at described
        · exact described
        · cases described
      · exact described
  | _ => exact described

mutual

/-- Where the data of a sketch without addresses of its own name objects after these were stored,
they described these objects before. -/
theorem Mirrors.described {opened : NodeId → Prop} {floor : Int} {records : Records} :
    ∀ {tree tree' : Sketch} {id : NodeId} {store after : Store},
      createContents functions tree store = (.ok tree', after) → Tidy store.records →
        (∀ part ∈ tree.walk, part.get? "object_id" = none) →
          Grown opened after.records records → Mirrors records floor Stored tree' id →
            Mirrors records floor (Described functions records) tree id
  | ⟨data, children⟩, tree', id, store, after, done, tidy, plain, grown, mirrors => by
      rcases bind_eq_ok.mp done with ⟨children', middle, below, done⟩
      have objects := createAllContents_objectsOnly below
      have plain_below : ∀ part ∈ Sketch.walkAll children, part.get? "object_id" = none :=
        fun part member => plain part (List.mem_cons_of_mem _ member)
      split at done
      · -- A part without a kind of content names no object.
        rename_i block
        rcases pure_eq_ok.mp done with ⟨rfl, rfl⟩
        rcases mirrors with ⟨_, ⟨_, ref, _, _, named⟩, _⟩
        have absent : Entries.get? "content_type" data = none := Option.isNone_iff_eq_none.mp block
        simp [Stored, storedRef, kindOf, absent, bind, Except.bind] at named
      · rcases bind_eq_ok.mp done with ⟨⟨ref, data'⟩, last, created, done⟩
        rcases pure_eq_ok.mp done with ⟨rfl, rfl⟩
        rcases createContent_spec created with ⟨objects', rfl, kind_eq, created⟩
        rcases mirrors with ⟨above, ⟨node, ref', found, wraps, named⟩, mirrors⟩
        rcases stored_storedData named with rfl
        have tidy_middle := objects.tidy tidy
        have grown_middle := (objects'.grown tidy_middle).trans grown fun _ _ _ opens => opens
        refine ⟨above, ⟨node, ref', found, wraps, ?_⟩,
          mirrors.described below tidy plain_below grown_middle⟩
        have own : Entries.get? "object_id" data = none := plain _ (List.mem_cons_self ..)
        rcases created with ⟨number, _⟩ | ⟨_, content, described, stored⟩
        · simp [own] at number
        · have kinds := kind_contentOf described
          exact ⟨content, by rw [kinds, kind_eq], by rw [kinds, described], grown.objects stored⟩

theorem MirrorsAll.described {opened : NodeId → Prop} {floor : Int} {records : Records} :
    ∀ {trees trees' : List Sketch} {ids : List NodeId} {store after : Store},
      createAllContents functions trees store = (.ok trees', after) → Tidy store.records →
        (∀ part ∈ Sketch.walkAll trees, part.get? "object_id" = none) →
          Grown opened after.records records → MirrorsAll records floor Stored trees' ids →
            MirrorsAll records floor (Described functions records) trees ids
  | [], trees', ids, store, after, done, _, _, _, mirrors => by
      rcases pure_eq_ok.mp done with ⟨rfl, rfl⟩
      exact mirrors
  | tree :: rest, trees', ids, store, after, done, tidy, plain, grown, mirrors => by
      rcases bind_eq_ok.mp done with ⟨tree', middle, here, done⟩
      rcases bind_eq_ok.mp done with ⟨rest', last, others, done⟩
      rcases pure_eq_ok.mp done with ⟨rfl, rfl⟩
      rcases mirrors with ⟨id, ids', rfl, first, mirrors⟩
      have tidy_middle := (createContents_objectsOnly here).tidy tidy
      have grown_middle : Grown opened middle.records records :=
        ((createAllContents_objectsOnly others).grown tidy_middle).trans grown
          fun _ _ _ opens => opens
      exact ⟨id, ids', rfl,
        first.described here tidy (fun part member => plain part (List.mem_append_left _ member))
          grown_middle,
        mirrors.described others tidy_middle
          (fun part member => plain part (List.mem_append_right _ member)) grown⟩

end

/-! ## Definitions of names -/

theorem kindOf_definitionSketch (ref : ContentRef) (name : String) :
    kindOf (definitionSketch ref name).data = .ok ref.kind := by
  simp [kindOf, definitionSketch, Sketch.dataOf, Entries.get?_insert, Entries.get?, Json.asStr?,
    Kind.ofTag?_tag]

theorem get?_definitionSketch (ref : ContentRef) (name : String) :
    Entries.get? "object_id" (definitionSketch ref name).data = some (.int ref.id.val) := by
  simp [definitionSketch, Entries.get?_insert]

/-- The part of a definition names its address, as long as this is a 64-bit number. -/
theorem storedRef_definitionSketch {ref : ContentRef} {name : String}
    (range : Word.InRange ref.id.val) : storedRef (definitionSketch ref name).data = .ok ref := by
  unfold storedRef
  rw [kindOf_definitionSketch, get?_definitionSketch, Option.bind_some, asInt?_int, if_pos range]
  rfl

/-- The part is that of a stored definition with a name. -/
def DefinitionPart (records : Records) (name : String) (part : Sketch) : Prop :=
  ∃ ref, part = definitionSketch ref name ∧ ref.kind = .definition ∧
    records.objects.get? ref = some (.definition name none)

/-- Each of some names got a definition of its own; other names mean what they meant. -/
structure Defines (before : Records) (names : Names) (fresh : List String) (result : Names)
    (parts : List Sketch) (after : Records) : Prop where
  own : ∀ name ∈ fresh, ∃ id, result.get? name = some id ∧ before.lastObject < id.val ∧
    after.objects.get? ⟨.definition, id⟩ = some (.definition name none)
  others : ∀ name, name ∉ fresh → result.get? name = names.get? name
  parts : List.Forall₂ (DefinitionPart after) fresh parts

/-- The first name gets a definition with the next number, and the other names get theirs. -/
theorem defineNames_cons_eq_ok {names result : Names} {name : String} {rest : List String}
    {parts : List Sketch}
    (done : defineNames names (name :: rest) store = (.ok (result, parts), after)) :
    ∃ others,
      parts = definitionSketch ⟨.definition, ⟨store.records.lastObject + 1⟩⟩ name :: others ∧
        defineNames (names.insert name ⟨store.records.lastObject + 1⟩) rest
          { store with
            records := store.records.insertObject ⟨.definition, ⟨store.records.lastObject + 1⟩⟩
              (.definition name none) } = (.ok (result, others), after) := by
  rcases bind_eq_ok.mp done with ⟨ref, middle, saved, done⟩
  rcases saveObject_eq_ok.mp saved with ⟨rfl, rfl⟩
  rcases bind_eq_ok.mp done with ⟨⟨names', others⟩, last, defined, done⟩
  rcases pure_eq_ok.mp done with ⟨same, rfl⟩
  cases same
  exact ⟨others, rfl, defined⟩

theorem defineNames_objectsOnly {names result : Names} {fresh : List String} {parts : List Sketch}
    (done : defineNames names fresh store = (.ok (result, parts), after)) :
    ObjectsOnly store.records after.records := by
  induction fresh generalizing names store parts with
  | nil =>
      rcases pure_eq_ok.mp done with ⟨_, rfl⟩
      exact .refl
  | cons name rest ih =>
      rcases defineNames_cons_eq_ok done with ⟨others, rfl, defined⟩
      exact (ObjectsOnly.saveObject store.records (.definition name none)).trans (ih defined)

theorem defineNames_spec {names result : Names} {fresh : List String} {parts : List Sketch}
    (done : defineNames names fresh store = (.ok (result, parts), after))
    (tidy : Tidy store.records) : Defines store.records names fresh result parts after.records := by
  induction fresh generalizing names store parts with
  | nil =>
      rcases pure_eq_ok.mp done with ⟨same, rfl⟩
      rcases Prod.mk.inj same with ⟨rfl, rfl⟩
      exact ⟨by simp, fun _ _ => rfl, .nil⟩
  | cons name rest ih =>
      rcases defineNames_cons_eq_ok done with ⟨others, rfl, defined⟩
      let saved := store.records.insertObject ⟨.definition, ⟨store.records.lastObject + 1⟩⟩
        (.definition name none)
      have objects : ObjectsOnly store.records saved := .saveObject _ (.definition name none)
      have stored : saved.objects.get? ⟨.definition, ⟨store.records.lastObject + 1⟩⟩ =
          some (.definition name none) := by simp [saved]
      have defines := ih defined (objects.tidy tidy)
      have first : Grown (fun _ => False) store.records saved := objects.grown tidy
      have rest_grown : Grown (fun _ => False) saved after.records :=
        (defineNames_objectsOnly defined).grown (objects.tidy tidy)
      have stored := rest_grown.objects stored
      refine ⟨?_, ?_, .cons ⟨_, rfl, rfl, stored⟩ defines.parts⟩
      · intro other member
        by_cases later : other ∈ rest
        · rcases defines.own other later with ⟨id, found, above, object⟩
          exact ⟨id, found, Int.lt_of_le_of_lt first.lastObject_le above, object⟩
        · have same : other = name := by
            rcases List.mem_cons.mp member with same | later'
            · exact same
            · exact absurd later' later
          subst same
          refine ⟨⟨store.records.lastObject + 1⟩, ?_, by simp only; omega, stored⟩
          rw [defines.others other later, Table.get?_insert, if_pos rfl]
      · intro other absent
        have apart : ¬other = name ∧ other ∉ rest := by simpa using absent
        rcases apart with ⟨differ, later⟩
        rw [defines.others other later, Table.get?_insert, if_neg (Ne.symm differ)]

theorem readsOnly_externalName (ref : ContentRef) : Tree.ReadsOnly (externalName ref) := by
  intro store
  unfold externalName
  split
  · have same : (loadObject ref store).2.records = store.records := rfl
    split <;> rename_i outcome <;> rw [outcome] at same <;> exact same
  · rfl

theorem readsOnly_externalNames (names : Names) (refs : List ContentRef) :
    Tree.ReadsOnly (externalNames names refs) := by
  induction refs generalizing names with
  | nil => exact Tree.readsOnly_pure _
  | cons ref rest ih => exact (readsOnly_externalName ref).bind fun name => ih _

/-- The names of stored definitions that have a source. -/
def Declared (names : Names) (records : Records) : Prop :=
  ∀ name id, names.get? name = some id →
    ∃ source, records.objects.get? ⟨.definition, id⟩ = some (.definition name (some source))

theorem externalName_eq_ok {ref : ContentRef} {name : String}
    (done : externalName ref store = (.ok name, after)) :
    ref.kind = .definition ∧ ∃ source,
      store.records.objects.get? ref = some (.definition name (some source)) := by
  unfold externalName at done
  split at done
  · rename_i kind
    split at done
    · rename_i loaded
      cases done
      rcases fetch_eq_ok.mp loaded with ⟨found, _⟩
      exact ⟨kind, _, object_eq_ok.mp found⟩
    all_goals cases done
  · cases done

theorem declared_externalNames {names known : Names} {refs : List ContentRef}
    (done : externalNames names refs store = (.ok known, after))
    (declared : Declared names store.records) : Declared known store.records := by
  induction refs generalizing names store with
  | nil =>
      rcases pure_eq_ok.mp done with ⟨rfl, _⟩
      exact declared
  | cons ref rest ih =>
      rcases bind_eq_ok.mp done with ⟨name, middle, loaded, done⟩
      have unchanged := (readsOnly_externalName ref).of_ok loaded
      rw [← unchanged] at declared ⊢
      refine ih done ?_
      intro other id found
      rcases Table.get?_insert_cases found with ⟨rfl, rfl⟩ | ⟨_, old⟩
      · rcases externalName_eq_ok loaded with ⟨kind, source, stored⟩
        rw [unchanged, ← kind]
        exact ⟨source, stored⟩
      · exact declared other id old

/-- The names that a tree uses are bound to definitions, and the parts of the new ones are at
hand. -/
theorem bindVariables_spec {tree bound : Sketch} {external : List ContentRef}
    {parts : List Sketch}
    (done : bindVariables tree external store = (.ok (parts, bound), after))
    (tidy : Tidy store.records) :
    ObjectsOnly store.records after.records ∧ ∃ known names,
      (∃ first, externalNames .empty external store = (.ok known, first)) ∧
        Declared known store.records ∧ bound = tree.mapData (bindData names) ∧
          Defines store.records known (newNames known tree) names parts after.records := by
  rcases bind_eq_ok.mp done with ⟨known, first, listed, done⟩
  rcases bind_eq_ok.mp done with ⟨⟨names, parts'⟩, second, defined, done⟩
  rcases pure_eq_ok.mp done with ⟨same, rfl⟩
  rcases Prod.mk.inj same with ⟨rfl, rfl⟩
  have unchanged := (readsOnly_externalNames _ _).of_ok listed
  have objects := defineNames_objectsOnly defined
  have defines := defineNames_spec defined (unchanged ▸ tidy)
  rw [unchanged] at objects defines
  have declared := declared_externalNames listed fun _ _ impossible => by cases impossible
  exact ⟨objects, known, names, ⟨first, listed⟩, declared, rfl, defines⟩

end RuleTree.Creation
