import RuleTree.Proofs.Atomicity
import RuleTree.Proofs.Creation.Resemblance

/-!
# Resolving names

Binding the variables of a tree gives every name one definition (`Reachable.resolves_names`): the
external definition with the name where there is one, and else a new one.  The new definitions are
stored in the order in which the names are used first.  A variable has its definition in the place
of its name afterwards, and nothing else in the tree is changed, so that there is nothing to bind in
the tree that comes out.  Where something is no external definition, neither the tree nor the store
is changed.
-/

namespace RuleTree

open Step Store Records RuleTree.Tree

/-! ## Names and definitions -/

/-- The object is a definition with a source. -/
def Records.Sourced (records : Records) (ref : ContentRef) : Prop :=
  ref.kind = .definition ∧
    ∃ name source, records.objects.get? ref = some (.definition name (some source))

/-- Each of some names comes with a stored definition of the name that has a source. -/
def Records.Supplies (records : Records) (supplied : List (String × ContentRef)) : Prop :=
  ∀ entry ∈ supplied, entry.2.kind = .definition ∧
    ∃ source, records.objects.get? entry.2 = some (.definition entry.1 (some source))

namespace Creation

/-- The names of the variables in a tree that are not supplied from outside, in the order of their
first use. -/
def localNames (supplied : List String) (tree : Sketch) : List String :=
  ((tree.walk.filterMap usedName?).filter fun name => name ∉ supplied).eraseDups

/-- Each of some names got a definition, in order and with the next numbers, and nothing else was
stored. -/
structure InOrder (before : Records) (fresh : List String) (after : Records) : Prop where
  nodes : after.nodes = before.nodes
  children : after.children = before.children
  lastNode : after.lastNode = before.lastNode
  lastObject : after.lastObject = before.lastObject + fresh.length
  objects : ∀ ref content, after.objects.get? ref = some content ↔
    before.objects.get? ref = some content ∨
      ∃ (index : Nat) (name : String), fresh[index]? = some name ∧ content = .definition name none ∧
        ref = ⟨.definition, ⟨before.lastObject + 1 + index⟩⟩

/-- A variable that went by a name has the definition of the name in its place; any other data are
the same as before. -/
structure Resolves (definition : String → ObjectId) (data data' : Fields) : Prop where
  nameless : ∀ name, Named data name → Entries.get? "name" data' = none
  defined : ∀ name, Named data name →
    Entries.get? "definition_id" data' = some (.int (definition name).val)
  kept : ∀ key, key ≠ "name" → key ≠ "definition_id" →
    Entries.get? key data' = Entries.get? key data
  others : (∀ name, ¬Named data name) → data' = data

/-- The definitions of the names that a tree uses: a supplied name has the last definition that is
supplied for it, the others have new ones in the order of the names, and no two names have one
definition. -/
structure Definitions (before : Records) (supplied : List (String × ContentRef)) (tree : Sketch)
    (definition : String → ObjectId) : Prop where
  outer : ∀ earlier name ref later, supplied = earlier ++ (name, ref) :: later →
    name ∉ later.map Prod.fst → definition name = ref.id
  own : ∀ (index : Nat) (name : String),
    (localNames (supplied.map Prod.fst) tree)[index]? = some name →
      definition name = ⟨before.lastObject + 1 + index⟩
  apart : Set.InjOn definition {name | ∃ part ∈ tree.walk, Named part.data name}

/-- What binding the variables of a tree does. -/
structure Resolution (before : Records) (supplied : List (String × ContentRef)) (tree : Sketch)
    (definition : String → ObjectId) (parts : List Sketch) (bound : Sketch) (after : Records) :
    Prop where
  stored : InOrder before (localNames (supplied.map Prod.fst) tree) after
  parts : List.Forall₂
    (fun name part => part = definitionSketch ⟨.definition, definition name⟩ name)
    (localNames (supplied.map Prod.fst) tree) parts
  definitions : Definitions before supplied tree definition
  bound : tree.Related (Resolves definition) bound

variable {store after : Store} {before records : Records} {tree : Sketch} {data : Fields}
  {name : String}

theorem mem_localNames {supplied : List String} : name ∈ localNames supplied tree ↔
    (∃ part ∈ tree.walk, Named part.data name) ∧ name ∉ supplied := by
  simp only [localNames, List.mem_eraseDups, List.mem_filter, List.mem_filterMap,
    usedName?_eq_some, decide_eq_true_eq]

theorem nodup_localNames (supplied : List String) (tree : Sketch) :
    (localNames supplied tree).Nodup := nodup_eraseDups _

/-- The new names are those that are not among the known ones. -/
theorem newNames_eq {known : Names} {supplied : List String}
    (known_iff : ∀ name, known.contains name = true ↔ name ∈ supplied) (tree : Sketch) :
    newNames known tree = localNames supplied tree := by
  unfold newNames localNames
  congr 2
  funext name
  rw [Bool.eq_iff_iff]
  simp [← known_iff]

/-! ## External definitions -/

/-- A name that is listed is listed a last time. -/
theorem exists_last {α β : Type} {key : α} {entries : List (α × β)}
    (member : key ∈ entries.map Prod.fst) : ∃ earlier value later,
      entries = earlier ++ (key, value) :: later ∧ key ∉ later.map Prod.fst := by
  induction entries with
  | nil => cases member
  | cons entry rest ih =>
      by_cases later : key ∈ rest.map Prod.fst
      · rcases ih later with ⟨earlier, value, after, rfl, last⟩
        exact ⟨entry :: earlier, value, after, rfl, last⟩
      · have here : entry.1 = key := by
          rcases List.mem_cons.mp member with same | listed
          · exact same.symm
          · exact absurd listed later
        exact ⟨[], entry.2, rest, by rw [← here]; rfl, later⟩

variable {refs : List ContentRef} {ref : ContentRef}

theorem exists_externalName (sourced : store.records.Sourced ref) :
    ∃ name after, externalName ref store = (.ok name, after) := by
  rcases sourced with ⟨kind, name, source, stored⟩
  have loaded : loadObject ref store = (.ok (.definition name (some source)), _) :=
    fetch_eq_ok.mpr ⟨object_eq_ok.mpr stored, rfl⟩
  refine ⟨name, { store with fetches := store.fetches + 1 }, ?_⟩
  unfold externalName
  rw [if_pos kind, loaded]

theorem exists_externalNames (names : Names) (sourced : ∀ ref ∈ refs, store.records.Sourced ref) :
    ∃ known after, externalNames names refs store = (.ok known, after) := by
  induction refs generalizing names store with
  | nil => exact ⟨names, store, rfl⟩
  | cons ref rest ih =>
      rcases exists_externalName (sourced ref (by simp)) with ⟨name, middle, loaded⟩
      have unchanged := (readsOnly_externalName ref).of_ok loaded
      have sourced_rest : ∀ ref ∈ rest, middle.records.Sourced ref := by
        intro other member
        rw [unchanged]
        exact sourced other (by simp [member])
      rcases ih (names.insert name ref.id) sourced_rest with ⟨known, after, done⟩
      exact ⟨known, after, bind_eq_ok.mpr ⟨name, middle, loaded, done⟩⟩

/-- Why an object is no variable of an interface. -/
def Rejects (ref : ContentRef) (cause : CreationError) : Prop :=
  cause = .notADefinition ref ∨ cause = .notExternallyDeclared ref

theorem externalName_rejects (unsourced : ¬store.records.Sourced ref) :
    ∃ cause after, externalName ref store = (.error (.creation cause), after) ∧
      Rejects ref cause := by
  unfold externalName
  by_cases kind : ref.kind = .definition
  · rw [if_pos kind]
    split
    · rename_i name source after loaded
      rcases fetch_eq_ok.mp loaded with ⟨found, _⟩
      exact absurd ⟨kind, name, source, object_eq_ok.mp found⟩ unsourced
    · exact ⟨_, _, rfl, .inr rfl⟩
    · exact ⟨_, _, rfl, .inl rfl⟩
  · rw [if_neg kind]
    exact ⟨_, _, rfl, .inl rfl⟩

/-- The first reference that leads to no definition of an interface is named in the error. -/
theorem externalNames_rejects (names : Names)
    (unsourced : ∃ ref ∈ refs, ¬store.records.Sourced ref) :
    ∃ ref ∈ refs, ¬store.records.Sourced ref ∧ ∃ cause after,
      externalNames names refs store = (.error (.creation cause), after) ∧ Rejects ref cause := by
  induction refs generalizing names store with
  | nil =>
      rcases unsourced with ⟨ref, impossible, _⟩
      cases impossible
  | cons ref rest ih =>
      by_cases here : store.records.Sourced ref
      · rcases exists_externalName here with ⟨name, middle, loaded⟩
        have unchanged := (readsOnly_externalName ref).of_ok loaded
        have later : ∃ ref ∈ rest, ¬middle.records.Sourced ref := by
          rcases unsourced with ⟨other, member, bad⟩
          rcases List.mem_cons.mp member with rfl | member
          · exact absurd here bad
          · exact ⟨other, member, unchanged ▸ bad⟩
        rcases ih (names.insert name ref.id) later with
          ⟨other, member, bad, cause, after, failed, why⟩
        refine ⟨other, by simp [member], unchanged ▸ bad, cause, after, ?_, why⟩
        rw [externalNames, bind_of_ok loaded, failed]
      · rcases externalName_rejects here with ⟨cause, after, failed, why⟩
        refine ⟨ref, by simp, here, cause, after, ?_, why⟩
        rw [externalNames, bind_of_error failed]

/-- The definitions that are referred to supply their names; of those with one name, the last one
is taken. -/
theorem externalNames_supplied {names known : Names}
    (done : externalNames names refs store = (.ok known, after)) :
    ∃ supplied : List (String × ContentRef), supplied.map Prod.snd = refs ∧
      store.records.Supplies supplied ∧
        (∀ earlier name ref later, supplied = earlier ++ (name, ref) :: later →
          name ∉ later.map Prod.fst → known.get? name = some ref.id) ∧
          ∀ name, name ∉ supplied.map Prod.fst → known.get? name = names.get? name := by
  induction refs generalizing names store with
  | nil =>
      rcases pure_eq_ok.mp done with ⟨rfl, _⟩
      exact ⟨[], rfl, by simp [Supplies], by simp, fun _ _ => rfl⟩
  | cons ref rest ih =>
      rcases bind_eq_ok.mp done with ⟨name, middle, loaded, done⟩
      have unchanged := (readsOnly_externalName ref).of_ok loaded
      rcases externalName_eq_ok loaded with ⟨kind, source, found⟩
      rcases ih done with ⟨supplied, refs_eq, sources, outer, others⟩
      refine ⟨(name, ref) :: supplied, by simp [refs_eq], ?_, ?_, ?_⟩
      · intro entry member
        rcases List.mem_cons.mp member with rfl | later
        · exact ⟨kind, source, found⟩
        · exact unchanged ▸ sources entry later
      · rintro (_ | ⟨first, earlier⟩) other otherRef later same last
        · rcases List.cons.inj same with ⟨same, rfl⟩
          cases same
          rw [others name last, Table.get?_insert, if_pos rfl]
        · exact outer earlier other otherRef later (List.cons.inj same).2 last
      · intro other absent
        have apart : other ≠ name ∧ other ∉ supplied.map Prod.fst := by simpa using absent
        rw [others other apart.2, Table.get?_insert, if_neg (Ne.symm apart.1)]

/-- The references tell the names. -/
theorem supplied_unique {supplied supplied' : List (String × ContentRef)}
    (same : supplied.map Prod.snd = supplied'.map Prod.snd) (supplies : records.Supplies supplied)
    (supplies' : records.Supplies supplied') : supplied = supplied' := by
  induction supplied generalizing supplied' with
  | nil => exact (List.map_eq_nil_iff.mp same.symm).symm
  | cons entry rest ih =>
      rcases List.map_eq_cons_iff.mp same.symm with ⟨entry', rest', rfl, ref_eq, rest_eq⟩
      rcases supplies entry (by simp) with ⟨_, source, found⟩
      rcases supplies' entry' (by simp) with ⟨_, source', found'⟩
      have names : entry.1 = entry'.1 := by
        rw [ref_eq, found] at found'
        simp only [Option.some.injEq, Content.definition.injEq] at found'
        exact found'.1
      rw [Prod.ext names ref_eq.symm, ih rest_eq.symm
        (fun other member => supplies other (by simp [member]))
        fun other member => supplies' other (by simp [member])]

/-! ## New definitions -/
/-! ## New definitions -/

theorem InOrder.refl (records : Records) : InOrder records [] records :=
  ⟨rfl, rfl, rfl, by simp, by simp⟩

/-- A definition that is stored first comes before those that are stored later. -/
theorem InOrder.cons {fresh : List String} (linked : Linked before)
    (later : InOrder (before.insertObject ⟨.definition, ⟨before.lastObject + 1⟩⟩
      (.definition name none)) fresh records) : InOrder before (name :: fresh) records := by
  have last : (before.insertObject ⟨.definition, ⟨before.lastObject + 1⟩⟩
      (.definition name none)).lastObject = before.lastObject + 1 :=
    lastObject_insertObject _ _ _ (by simp only; omega)
  refine ⟨later.nodes, later.children, later.lastNode, ?_, ?_⟩
  · rw [later.lastObject, last]
    simp only [List.length_cons, Int.natCast_add, Int.cast_ofNat_Int]
    omega
  · intro ref content
    rw [later.objects, get?_insertObject, last]
    constructor
    · rintro (old | ⟨index, other, found, same, address⟩)
      · split at old
        · rename_i address
          refine .inr ⟨0, name, rfl, (Option.some.inj old).symm, ?_⟩
          rw [← address]
          simp
        · exact .inl old
      · refine .inr ⟨index + 1, other, found, same, ?_⟩
        rw [address]
        simp only [Int.natCast_add, Int.cast_ofNat_Int, ContentRef.mk.injEq, ObjectId.mk.injEq,
          true_and]
        omega
    · rintro (old | ⟨index, other, found, same, address⟩)
      · refine .inl ?_
        rw [if_neg, old]
        rintro rfl
        have bound := (linked.addressed old).1
        simp only at bound
        omega
      · cases index with
        | zero =>
            cases found
            refine .inl ?_
            rw [if_pos (by rw [address]; simp), same]
        | succ index =>
            refine .inr ⟨index, other, found, same, ?_⟩
            rw [address]
            simp only [Int.natCast_add, Int.cast_ofNat_Int, ContentRef.mk.injEq,
              ObjectId.mk.injEq, true_and]
            omega

/-- The definitions of distinct names are stored in the order of the names, and their parts name
them. -/
theorem defineNames_inOrder {names result : Names} {fresh : List String} {parts : List Sketch}
    (done : defineNames names fresh store = (.ok (result, parts), after))
    (tidy : Tidy store.records) (distinct : fresh.Nodup) :
    InOrder store.records fresh after.records ∧
      (∀ (index : Nat) (name : String), fresh[index]? = some name →
        result.get? name = some ⟨store.records.lastObject + 1 + index⟩) ∧
        List.Forall₂ (fun name part => ∃ id, result.get? name = some id ∧
          part = definitionSketch ⟨.definition, id⟩ name) fresh parts := by
  induction fresh generalizing names store parts with
  | nil =>
      rcases pure_eq_ok.mp done with ⟨same, rfl⟩
      cases same
      exact ⟨.refl _, by simp, .nil⟩
  | cons first rest ih =>
      rcases defineNames_cons_eq_ok done with ⟨others, rfl, defined⟩
      rcases List.nodup_cons.mp distinct with ⟨unlisted, distinct⟩
      have tidy_saved := tidy.saveObject (.definition first none)
      rcases ih defined tidy_saved distinct with ⟨later, found, parts⟩
      have own : result.get? first = some ⟨store.records.lastObject + 1⟩ := by
        rw [(defineNames_spec defined tidy_saved).others first unlisted, Table.get?_insert,
          if_pos rfl]
      refine ⟨later.cons tidy.linked, ?_, .cons ⟨_, own, rfl⟩ parts⟩
      rintro (_ | index) name listed
      · cases listed
        rw [own]
        simp
      · rw [found index name listed]
        have number : (store.records.insertObject ⟨.definition, ⟨store.records.lastObject + 1⟩⟩
            (.definition first none)).lastObject = store.records.lastObject + 1 :=
          lastObject_insertObject _ _ _ (by simp only; omega)
        simp only [number, Int.natCast_add, Int.cast_ofNat_Int, Option.some.injEq,
          ObjectId.mk.injEq]
        omega

/-! ## Binding -/

theorem bindData_resolves {names : Names} {definition : String → ObjectId}
    (bound : ∀ name, Named data name → names.get? name = some (definition name)) :
    Resolves definition data (bindData names data) := by
  cases used : usedName? ⟨data, []⟩ with
  | none =>
      have unnamed : ∀ name, ¬Named data name := by
        intro name named
        rw [usedName?_eq_some.mpr named] at used
        cases used
      have same : bindData names data = data := by simp [bindData, used]
      exact ⟨fun name named => absurd named (unnamed name),
        fun name named => absurd named (unnamed name), fun _ _ _ => by rw [same], fun _ => same⟩
  | some name =>
      have named : Named data name := usedName?_eq_some.mp used
      have same : bindData names data = Entries.insert "definition_id"
          (.int (definition name).val) (Entries.erase "name" data) := by
        simp [bindData, used, bound name named]
      refine ⟨fun other _ => ?_, fun other named' => ?_, fun key not_name not_definition => ?_,
        fun unnamed => absurd named (unnamed name)⟩
      · rw [same, Entries.get?_insert, Entries.get?_erase]
        simp
      · have one : other = name := by
          have both := named'.2.symm.trans named.2
          simpa using both
        rw [same, Entries.get?_insert, one]
        simp
      · exact get?_bindData names data not_name not_definition

/-- Data that were bound have no name that is still to be bound. -/
theorem Resolves.unnamed {definition : String → ObjectId} {data' : Fields}
    (resolves : Resolves definition data data') (name : String) : ¬Named data' name := by
  intro named
  by_cases before : ∃ name, Named data name
  · rcases before with ⟨other, before⟩
    have absent := resolves.nameless other before
    rw [named.2] at absent
    cases absent
  · have same := resolves.others fun other named => before ⟨other, named⟩
    exact before ⟨name, same ▸ named⟩

end Creation

namespace Sketch

mutual

/-- A change of all data relates a sketch to what comes of it. -/
theorem related_mapData {relates : Fields → Fields → Prop} {change : Fields → Fields} :
    ∀ {tree : Sketch}, (∀ part ∈ tree.walk, relates part.data (change part.data)) →
      tree.Related relates (tree.mapData change)
  | ⟨_, _⟩, changes => ⟨changes _ (List.mem_cons_self ..),
      relatedAll_mapDataAll fun part member => changes part (List.mem_cons_of_mem _ member)⟩

theorem relatedAll_mapDataAll {relates : Fields → Fields → Prop} {change : Fields → Fields} :
    ∀ {trees : List Sketch}, (∀ part ∈ walkAll trees, relates part.data (change part.data)) →
      RelatedAll relates trees (mapDataAll change trees)
  | [], _ => rfl
  | _ :: _, changes => ⟨_, _, rfl,
      related_mapData fun part member => changes part (List.mem_append_left _ member),
      relatedAll_mapDataAll fun part member => changes part (List.mem_append_right _ member)⟩

end

mutual

/-- Data that a change leaves as they are make a sketch that it leaves as it is. -/
theorem mapData_eq_self {change : Fields → Fields} :
    ∀ {tree : Sketch}, (∀ part ∈ tree.walk, change part.data = part.data) →
      tree.mapData change = tree
  | ⟨data, children⟩, same => by
      rw [mapData, same _ (List.mem_cons_self ..),
        mapDataAll_eq_self fun part member => same part (List.mem_cons_of_mem _ member)]

theorem mapDataAll_eq_self {change : Fields → Fields} :
    ∀ {trees : List Sketch}, (∀ part ∈ walkAll trees, change part.data = part.data) →
      mapDataAll change trees = trees
  | [], _ => rfl
  | tree :: rest, same => by
      rw [mapDataAll, mapData_eq_self fun part member => same part (List.mem_append_left _ member),
        mapDataAll_eq_self fun part member => same part (List.mem_append_right _ member)]

end

mutual

theorem Related.flip {relates : Fields → Fields → Prop} : ∀ {tree tree' : Sketch},
    tree.Related relates tree' → tree'.Related (fun data data' => relates data' data) tree
  | ⟨_, _⟩, ⟨_, _⟩, ⟨here, below⟩ => ⟨here, below.flip⟩

theorem RelatedAll.flip {relates : Fields → Fields → Prop} : ∀ {trees trees' : List Sketch},
    RelatedAll relates trees trees' → RelatedAll (fun data data' => relates data' data) trees' trees
  | [], _, same => by
      cases same
      rfl
  | _ :: _, _, ⟨_, _, same, here, others⟩ => by
      cases same
      exact ⟨_, _, rfl, here.flip, others.flip⟩

end

end Sketch

namespace Creation

/-- A tree without names keeps its data and needs no definitions. -/
theorem bindVariables_unnamed {external : List ContentRef} {known : Names}
    (listed : externalNames .empty external store = (.ok known, after))
    (unnamed : ∀ part ∈ tree.walk, ∀ name, ¬Named part.data name) :
    bindVariables tree external store = (.ok ([], tree), after) := by
  have unused : ∀ part ∈ tree.walk, usedName? part = none := by
    intro part member
    cases used : usedName? part with
    | none => rfl
    | some name => exact absurd (usedName?_eq_some.mp used) (unnamed part member name)
  have none_new : newNames known tree = [] := by
    unfold newNames
    rw [List.filterMap_eq_nil_iff.mpr unused]
    rfl
  have same : tree.mapData (bindData known) = tree :=
    Sketch.mapData_eq_self fun part member => by simp [bindData, show usedName? ⟨part.data, []⟩ =
      none from unused part member]
  unfold bindVariables
  rw [bind_of_ok listed, none_new]
  exact congrArg (fun tree => (Except.ok ([], tree), after)) same

/-- A tree whose variables were bound. -/
theorem resolution_of_bindVariables {external : List ContentRef} {parts : List Sketch}
    {bound : Sketch} (tidy : Tidy store.records)
    (done : bindVariables tree external store = (.ok (parts, bound), after)) :
    ∃ supplied names definition, supplied.map Prod.snd = external ∧
      store.records.Supplies supplied ∧ bound = tree.mapData (bindData names) ∧
        (∀ part ∈ tree.walk, ∀ name, Named part.data name →
          names.get? name = some (definition name)) ∧
          Resolution store.records supplied tree definition parts bound after.records := by
  rcases bind_eq_ok.mp done with ⟨known, first, listed, done⟩
  rcases bind_eq_ok.mp done with ⟨⟨names, parts'⟩, second, defined, done⟩
  rcases pure_eq_ok.mp done with ⟨same, rfl⟩
  cases same
  rcases externalNames_supplied listed with ⟨supplied, refs_eq, supplies, outer, others⟩
  have sources := declared_externalNames listed fun _ _ impossible => by cases impossible
  have known_iff : ∀ name, known.contains name = true ↔ name ∈ supplied.map Prod.fst := by
    intro name
    rw [Table.contains]
    constructor
    · intro contained
      by_contra absent
      rw [others name absent] at contained
      cases contained
    · intro member
      rcases exists_last member with ⟨earlier, ref, later, same, last⟩
      rw [outer earlier name ref later same last]
      rfl
  have unchanged := (readsOnly_externalNames _ _).of_ok listed
  have defines := defineNames_spec defined (unchanged ▸ tidy)
  rcases defineNames_inOrder defined (unchanged ▸ tidy) (nodup_eraseDups _) with
    ⟨stored, own, sketched⟩
  rw [newNames_eq known_iff tree, unchanged] at stored own
  rw [newNames_eq known_iff tree] at sketched defines
  let definition (name : String) : ObjectId := (names.get? name).getD ⟨0⟩
  have definition_of {name : String} {id : ObjectId} (bound : names.get? name = some id) :
      definition name = id := by simp [definition, bound]
  have kept {name : String} (outside : name ∈ supplied.map Prod.fst) :
      names.get? name = known.get? name :=
    defines.others name fun inside => (mem_localNames.mp inside).2 outside
  -- A used name is supplied or new; either way its definition has this name.
  have resolved : ∀ name, (∃ part ∈ tree.walk, Named part.data name) → ∃ id source,
      names.get? name = some id ∧
        second.records.objects.get? ⟨.definition, id⟩ = some (.definition name source) := by
    intro name used
    by_cases outside : name ∈ supplied.map Prod.fst
    · rcases Option.isSome_iff_exists.mp ((known_iff name).mpr outside) with ⟨id, bound⟩
      rcases sources name id bound with ⟨source, object⟩
      exact ⟨id, some source, (kept outside).trans bound, (stored.objects _ _).mpr (.inl object)⟩
    · rcases defines.own name (mem_localNames.mpr ⟨used, outside⟩) with ⟨id, bound, _, object⟩
      exact ⟨id, none, bound, object⟩
  have found : ∀ part ∈ tree.walk, ∀ name, Named part.data name →
      names.get? name = some (definition name) := by
    intro part member name named
    rcases resolved name ⟨part, member, named⟩ with ⟨id, source, bound, _⟩
    rw [definition_of bound, bound]
  refine ⟨supplied, names, definition, refs_eq, supplies, rfl, found, stored, sketched.imp ?_,
    ⟨?_, fun index name listed => definition_of (own index name listed), ?_⟩,
    Sketch.related_mapData fun part member => bindData_resolves (found part member)⟩
  · rintro name part ⟨id, bound, rfl⟩
    rw [definition_of bound]
  · intro earlier name ref later same last
    have outside : name ∈ supplied.map Prod.fst := by simp [same]
    exact definition_of ((kept outside).trans (outer earlier name ref later same last))
  · intro name used other other_used same
    rcases resolved name used with ⟨id, source, bound, object⟩
    rcases resolved other other_used with ⟨id', source', bound', object'⟩
    rw [definition_of bound, definition_of bound'] at same
    rw [same, object'] at object
    cases object
    rfl

/-- With definitions at hand, binding the variables of a tree succeeds. -/
theorem exists_bindVariables {external : List ContentRef}
    (sourced : ∀ ref ∈ external, store.records.Sourced ref) (tree : Sketch) :
    ∃ parts bound after, bindVariables tree external store = (.ok (parts, bound), after) := by
  rcases exists_externalNames .empty sourced with ⟨known, first, listed⟩
  rcases @exists_defineNames first known (newNames known tree) with
    ⟨names, parts, after, defined, _⟩
  refine ⟨parts, tree.mapData (bindData names), after, ?_⟩
  unfold bindVariables
  rw [bind_of_ok listed, bind_of_ok defined]
  rfl

end Creation

open Creation

/-- Where every external reference is to a stored definition with a source, a tree is bound: each
name that no external definition has gets a new definition, in the order of their first use, each
variable gets the definition of its name, and nothing else is stored or changed.  Nothing is bound
a second time.  A reference to anything else is refused, and the tree and the store stay as they
are, apart from the count of reads. -/
theorem Reachable.resolves_names (reachable : Reachable store) (tree : Sketch) :
    (∀ supplied, store.records.Supplies supplied → ∃ definition parts bound after last,
      bindVariablesInPlace (supplied.map Prod.snd) (tree, store) = (.ok parts, bound, after) ∧
      Resolution store.records supplied tree definition parts bound after.records ∧
      ((supplied.map Prod.fst).Nodup → ∀ entry ∈ supplied, definition entry.1 = entry.2.id) ∧
      bindVariablesInPlace (supplied.map Prod.snd) (bound, after) = (.ok [], bound, last) ∧
      last.records = after.records) ∧
    ∀ external, (∃ ref ∈ external, ¬store.records.Sourced ref) →
      ∃ ref ∈ external, ¬store.records.Sourced ref ∧ ∃ cause after,
        bindVariablesInPlace external (tree, store) = (.error (.creation cause), tree, after) ∧
        Rejects ref cause ∧ OnlyRead store after := by
  constructor
  · intro supplied supplies
    have sourced : ∀ ref ∈ supplied.map Prod.snd, store.records.Sourced ref := by
      intro ref member
      rcases List.mem_map.mp member with ⟨entry, entry_mem, rfl⟩
      rcases supplies entry entry_mem with ⟨kind, source, found⟩
      exact ⟨kind, entry.1, source, found⟩
    rcases exists_bindVariables sourced tree with ⟨parts, bound, after, done⟩
    rcases resolution_of_bindVariables reachable.tidy done with
      ⟨supplied', names, definition, same, supplies', _, _, resolution⟩
    rcases supplied_unique same.symm supplies supplies' with rfl
    have sourced_after : ∀ ref ∈ supplied.map Prod.snd, after.records.Sourced ref := by
      intro ref member
      rcases sourced ref member with ⟨kind, name, source, found⟩
      exact ⟨kind, name, source, (resolution.stored.objects _ _).mpr (.inl found)⟩
    rcases exists_externalNames .empty sourced_after with ⟨known, last, listed⟩
    have unnamed : ∀ part ∈ bound.walk, ∀ name, ¬Named part.data name := by
      intro part member name
      rcases resolution.bound.flip.mem_walk member with ⟨before, _, resolves⟩
      exact resolves.data.unnamed name
    refine ⟨definition, parts, bound, after, last, ?_, resolution, ?_, ?_, ?_⟩
    · rw [bindVariablesInPlace_eq, done]
    · intro distinct entry member
      rcases List.append_of_mem member with ⟨earlier, later, rfl⟩
      refine resolution.definitions.outer earlier entry.1 entry.2 later rfl ?_
      simp only [List.map_append, List.map_cons, List.nodup_append, List.nodup_cons] at distinct
      exact distinct.2.1.1
    · rw [bindVariablesInPlace_eq, bindVariables_unnamed listed unnamed]
    · exact (readsOnly_externalNames _ _).of_ok listed
  · intro external offending
    rcases externalNames_rejects .empty offending with ⟨ref, member, bad, cause, after, failed, why⟩
    have refused : bindVariables tree external store = (.error (.creation cause), after) := by
      unfold bindVariables
      rw [bind_of_error failed]
    refine ⟨ref, member, bad, cause, after, ?_, why,
      (Operation.bindVariables tree external).onlyRead refused⟩
    rw [bindVariablesInPlace_eq, refused]

/-- A store with the definition of one argument. -/
def orderStore : Store :=
  (Interface.declareVariables ⟨"bill", [⟨"order", "sale", none, []⟩]⟩ Store.empty).2

/-- Two uses of one name, with a use of the argument between them. -/
def orderTree : Sketch := .block
  [⟨Sketch.dataOf .use [("name", .str "sum")], []⟩,
    ⟨Sketch.dataOf .use [("name", .str "order")], []⟩,
    ⟨Sketch.dataOf .use [("name", .str "sum")], []⟩]

theorem resolves_names_order :
    orderStore.records.Supplies [("order", ⟨.definition, ⟨1⟩⟩)] ∧
    (∃ parts bound after, bindVariablesInPlace [⟨.definition, ⟨1⟩⟩] (orderTree, orderStore) =
      (.ok parts, bound, after) ∧
      after.records.objects.get? ⟨.definition, ⟨2⟩⟩ = some (.definition "sum" none)) ∧
    ¬orderStore.records.Sourced ⟨.definition, ⟨2⟩⟩ ∧
    ∃ cause after, bindVariablesInPlace [⟨.definition, ⟨1⟩⟩, ⟨.definition, ⟨2⟩⟩]
      (orderTree, orderStore) = (.error (.creation cause), orderTree, after) := by
  have reachable : Reachable orderStore := .declareVariables _ .empty
  have supplies : orderStore.records.Supplies [("order", ⟨.definition, ⟨1⟩⟩)] := by
    intro entry member
    rcases List.mem_singleton.mp member with rfl
    exact ⟨rfl, .argument "order", rfl⟩
  have unstored : ¬orderStore.records.Sourced ⟨.definition, ⟨2⟩⟩ := by
    rintro ⟨_, name, source, found⟩
    cases found
  refine ⟨supplies, ?_, unstored, ?_⟩
  · rcases (reachable.resolves_names orderTree).1 _ supplies with
      ⟨definition, parts, bound, after, last, done, resolution, _⟩
    refine ⟨parts, bound, after, done, (resolution.stored.objects _ _).mpr (.inr ⟨0, "sum", ?_⟩)⟩
    exact ⟨by decide +kernel, rfl, by decide⟩
  · rcases (reachable.resolves_names orderTree).2 [⟨.definition, ⟨1⟩⟩, ⟨.definition, ⟨2⟩⟩]
      ⟨_, by simp, unstored⟩ with ⟨ref, _, _, cause, after, failed, _⟩
    exact ⟨cause, after, failed⟩

end RuleTree
