import RuleTree.Proofs.Evaluation.Meaning

/-!
# Sketches that are stored alike

Two sketches of one shape whose data are interchangeable part by part lead to the same objects, the
same nodes and the same errors (`Creation.create_congr`).  The number of a block and the spelling of
a value make no difference to what is stored.
-/

namespace RuleTree

open Step

namespace Sketch

/-! ## Sketches of one shape -/

mutual

/-- Two sketches have one shape, and their data are related part by part. -/
def Related (relates : Fields → Fields → Prop) : Sketch → Sketch → Prop
  | ⟨data, children⟩, ⟨data', children'⟩ =>
      relates data data' ∧ RelatedAll relates children children'

def RelatedAll (relates : Fields → Fields → Prop) : List Sketch → List Sketch → Prop
  | [], others => others = []
  | tree :: rest, others =>
      ∃ tree' rest', others = tree' :: rest' ∧ Related relates tree tree' ∧
        RelatedAll relates rest rest'

end

variable {relates relates' : Fields → Fields → Prop}

theorem RelatedAll.length_eq {trees trees' : List Sketch}
    (related : RelatedAll relates trees trees') : trees.length = trees'.length := by
  induction trees generalizing trees' with
  | nil =>
      cases related
      rfl
  | cons tree rest ih =>
      rcases related with ⟨tree', rest', rfl, _, related⟩
      simp [ih related]

theorem RelatedAll.append {first first' second second' : List Sketch}
    (left : RelatedAll relates first first') (right : RelatedAll relates second second') :
    RelatedAll relates (first ++ second) (first' ++ second') := by
  induction first generalizing first' with
  | nil =>
      cases left
      exact right
  | cons tree rest ih =>
      rcases left with ⟨tree', rest', rfl, here, left⟩
      exact ⟨tree', rest' ++ second', rfl, here, ih left⟩

mutual

/-- Changing related data to related data keeps sketches related. -/
theorem Related.mapData {change change' : Fields → Fields}
    (keeps : ∀ data data', relates data data' → relates' (change data) (change' data')) :
    ∀ {tree tree' : Sketch}, Related relates tree tree' →
      Related relates' (tree.mapData change) (tree'.mapData change')
  | ⟨_, _⟩, ⟨_, _⟩, ⟨same, below⟩ => ⟨keeps _ _ same, below.mapDataAll keeps⟩

theorem RelatedAll.mapDataAll {change change' : Fields → Fields}
    (keeps : ∀ data data', relates data data' → relates' (change data) (change' data')) :
    ∀ {trees trees' : List Sketch}, RelatedAll relates trees trees' →
      RelatedAll relates' (Sketch.mapDataAll change trees) (Sketch.mapDataAll change' trees')
  | [], _, empty => by
      cases empty
      rfl
  | _ :: _, _, ⟨_, _, same, here, others⟩ => by
      cases same
      exact ⟨_, _, rfl, here.mapData keeps, others.mapDataAll keeps⟩

end

mutual

/-- What is looked for in related parts is found in the same order. -/
theorem Related.filterMap_walk {α : Type} {find : Sketch → Option α}
    (same : ∀ data data' children children', relates data data' →
      find ⟨data, children⟩ = find ⟨data', children'⟩) :
    ∀ {tree tree' : Sketch}, Related relates tree tree' →
      tree.walk.filterMap find = tree'.walk.filterMap find
  | ⟨_, _⟩, ⟨_, _⟩, ⟨here, below⟩ => by
      rw [walk, walk, List.filterMap_cons, List.filterMap_cons, same _ _ _ _ here,
        below.filterMap_walkAll same]

theorem RelatedAll.filterMap_walkAll {α : Type} {find : Sketch → Option α}
    (same : ∀ data data' children children', relates data data' →
      find ⟨data, children⟩ = find ⟨data', children'⟩) :
    ∀ {trees trees' : List Sketch}, RelatedAll relates trees trees' →
      (walkAll trees).filterMap find = (walkAll trees').filterMap find
  | [], _, empty => by
      cases empty
      rfl
  | _ :: _, _, ⟨_, _, equal, here, others⟩ => by
      cases equal
      rw [walkAll, walkAll, List.filterMap_append, List.filterMap_append,
        here.filterMap_walk same, others.filterMap_walkAll same]

end

theorem Related.data {tree tree' : Sketch} (related : Related relates tree tree') :
    relates tree.data tree'.data := by
  rcases tree with ⟨_, _⟩
  rcases tree' with ⟨_, _⟩
  exact related.1

mutual

/-- Each part of a sketch has a part of the other one that it is related to. -/
theorem Related.mem_walk {part : Sketch} :
    ∀ {tree tree' : Sketch}, Related relates tree tree' → part ∈ tree.walk →
      ∃ part' ∈ tree'.walk, Related relates part part'
  | ⟨_, _⟩, ⟨_, _⟩, ⟨here, below⟩, member => by
      rcases List.mem_cons.mp member with rfl | member
      · exact ⟨_, List.mem_cons_self .., here, below⟩
      · rcases below.mem_walkAll member with ⟨part', member', same⟩
        exact ⟨part', List.mem_cons_of_mem _ member', same⟩

theorem RelatedAll.mem_walkAll {part : Sketch} :
    ∀ {trees trees' : List Sketch}, RelatedAll relates trees trees' → part ∈ walkAll trees →
      ∃ part' ∈ walkAll trees', Related relates part part'
  | [], _, _, member => by cases member
  | _ :: _, _, ⟨_, _, equal, here, others⟩, member => by
      cases equal
      rcases List.mem_append.mp member with member | member
      · rcases here.mem_walk member with ⟨part', member', same⟩
        exact ⟨part', List.mem_append_left _ member', same⟩
      · rcases others.mem_walkAll member with ⟨part', member', same⟩
        exact ⟨part', List.mem_append_right _ member', same⟩

end

end Sketch

namespace Creation

variable {functions : Option Library}

/-! ## Interchangeable data -/

/-- Data that describe one object.  Apart from the number of a block and the spelling of a value
they are the same. -/
structure Interchangeable (data data' : Fields) : Prop where
  entries : ∀ key, key ≠ "id" → key ≠ "value" → Entries.get? key data = Entries.get? key data'
  content : ∀ functions kind, kindOf data = .ok kind →
    contentOf functions kind data = contentOf functions kind data'

/-- An object depends on nothing but the entries that hold the parts of values. -/
theorem contentOf_congr {kind : Kind} {data data' : Fields}
    (same : ∀ key ∈ literalKeys, Entries.get? key data = Entries.get? key data') :
    contentOf functions kind data = contentOf functions kind data' := by
  have value := same "value" (by decide)
  have model := same "model" (by decide)
  have name := same "name" (by decide)
  have operator := same "operator" (by decide)
  have title := same "definition" (by decide)
  have definition := same "definition_id" (by decide)
  cases kind <;> simp only [contentOf, operatorOf, require, value, model, name, operator, title,
    definition]

namespace Interchangeable

variable {data data' : Fields}

theorem refl (data : Fields) : Interchangeable data data := ⟨fun _ _ _ => rfl, fun _ _ _ => rfl⟩

theorem kindOf_eq (same : Interchangeable data data') : kindOf data = kindOf data' := by
  unfold kindOf
  rw [same.entries _ (by decide) (by decide)]

theorem kind?_eq (same : Interchangeable data data') (children children' : List Sketch) :
    Sketch.kind? ⟨data, children⟩ = Sketch.kind? ⟨data', children'⟩ := by
  unfold Sketch.kind? Sketch.getStr? Sketch.get?
  rw [same.entries _ (by decide) (by decide)]

theorem symm (same : Interchangeable data data') : Interchangeable data' data where
  entries key no_id no_value := (same.entries key no_id no_value).symm
  content functions kind kind_eq :=
    (same.content functions kind (same.kindOf_eq.trans kind_eq)).symm

theorem trans {data'' : Fields} (left : Interchangeable data data')
    (right : Interchangeable data' data'') : Interchangeable data data'' where
  entries key no_id no_value :=
    (left.entries key no_id no_value).trans (right.entries key no_id no_value)
  content functions kind kind_eq := (left.content functions kind kind_eq).trans
    (right.content functions kind (left.kindOf_eq.symm.trans kind_eq))

theorem written (same : Interchangeable data data') (written : Written data') : Written data where
  no_object := (same.entries _ (by decide) (by decide)).trans written.no_object
  no_definition := (same.entries _ (by decide) (by decide)).trans written.no_definition
  kind := by
    rw [same.kind?_eq [] []]
    exact written.kind

theorem usedName?_eq (same : Interchangeable data data') (children children' : List Sketch) :
    usedName? ⟨data, children⟩ = usedName? ⟨data', children'⟩ := by
  unfold usedName?
  rw [same.kind?_eq children children', Sketch.getStr?, Sketch.getStr?, Sketch.get?, Sketch.get?,
    same.entries _ (by decide) (by decide)]

/-- The object of a variable depends on its definition alone, and other data are not bound. -/
theorem bindData (same : Interchangeable data data') (names : Names) :
    Interchangeable (bindData names data) (bindData names data') := by
  unfold Creation.bindData
  rw [← same.usedName?_eq [] []]
  cases bound : (usedName? ⟨data, []⟩).bind names.get? with
  | none => exact same
  | some definition =>
      have entries (key : String) (no_id : key ≠ "id") (no_value : key ≠ "value") :
          Entries.get? key (Entries.insert "definition_id" (.int definition.val)
              (Entries.erase "name" data)) =
            Entries.get? key (Entries.insert "definition_id" (.int definition.val)
              (Entries.erase "name" data')) := by
        simp only [Entries.get?_insert, Entries.get?_erase, same.entries key no_id no_value]
      refine ⟨entries, fun functions kind kind_eq => ?_⟩
      have is_use : Sketch.kind? ⟨data, []⟩ = some .use := by
        unfold usedName? at bound
        by_contra other
        simp [other] at bound
      have use : kindOf data = .ok kind := by
        rw [← kind_eq]
        unfold kindOf
        rw [Entries.get?_insert, Entries.get?_erase]
        rfl
      rw [kindOf_eq_ok] at use
      rw [is_use] at use
      cases use
      simp only [contentOf, entries "definition_id" (by decide) (by decide),
        entries "name" (by decide) (by decide)]

end Interchangeable

variable {tree tree' : Sketch}

theorem newNames_related (known : Names) (related : tree.Related Interchangeable tree') :
    newNames known tree = newNames known tree' := by
  unfold newNames
  rw [related.filterMap_walk fun _ _ _ _ same => same.usedName?_eq _ _]

/-! ## Checks -/

theorem head?_kind?_related {trees trees' : List Sketch}
    (related : Sketch.RelatedAll Interchangeable trees trees') :
    trees.head?.bind Sketch.kind? = trees'.head?.bind Sketch.kind? := by
  cases trees with
  | nil =>
      cases related
      rfl
  | cons tree rest =>
      rcases related with ⟨⟨data', children'⟩, rest', rfl, here, _⟩
      rcases tree with ⟨data, children⟩
      exact here.1.kind?_eq children children'

theorem checkNode_related {isRoot : Bool} {data data' : Fields} {children children' : List Sketch}
    (same : Interchangeable data data')
    (below : Sketch.RelatedAll Interchangeable children children') :
    checkNode functions isRoot ⟨data, children⟩ =
      checkNode functions isRoot ⟨data', children'⟩ := by
  have tag := same.entries "content_type" (by decide) (by decide)
  have title := same.entries "definition" (by decide) (by decide)
  unfold checkNode checkCount checkTarget expectedChildren Sketch.isBlock Sketch.getStr? Sketch.get?
  simp only [same.kind?_eq children children', tag, title, below.length_eq,
    head?_kind?_related below]

mutual

theorem check_related {isRoot : Bool} : ∀ {tree tree' : Sketch},
    tree.Related Interchangeable tree' → check functions isRoot tree = check functions isRoot tree'
  | ⟨_, _⟩, ⟨_, _⟩, ⟨same, below⟩ => by
      rw [check, check, checkNode_related same below, checkAll_related below]

theorem checkAll_related : ∀ {trees trees' : List Sketch},
    Sketch.RelatedAll Interchangeable trees trees' →
      checkAll functions trees = checkAll functions trees'
  | [], _, empty => by
      cases empty
      rfl
  | _ :: _, _, ⟨_, _, equal, here, others⟩ => by
      cases equal
      rw [checkAll, checkAll, check_related here, checkAll_related others]

end

/-! ## Objects -/

/-- Data that lead to one stored object. -/
def SameObject (data data' : Fields) : Prop :=
  Entries.get? "content_type" data = Entries.get? "content_type" data' ∧
    storedRef data = storedRef data'

theorem sameObject_storedData (ref : ContentRef) (data data' : Fields) :
    SameObject (storedData ref data) (storedData ref data') := by
  refine ⟨?_, by rw [storedRef_storedData, storedRef_storedData]⟩
  simp [storedData, Entries.get?_insert]

theorem alike_createContent {data data' : Fields} (same : Interchangeable data data') :
    Alike Eq (fun result result' => SameObject result.2 result'.2)
      (createContent functions data) (createContent functions data') := by
  unfold createContent
  rw [← same.kindOf_eq, ← same.entries "object_id" (by decide) (by decide)]
  cases kind_eq : kindOf data with
  | error cause => exact Alike.throw (.creation cause)
  | ok kind =>
      have given : Alike Eq (fun left right => left = kind ∧ right = kind)
          (give (.ok kind)) (give (.ok kind)) := Alike.pure ⟨rfl, rfl⟩
      refine given.bind ?_
      rintro _ _ ⟨rfl, rfl⟩
      rw [same.content functions _ kind_eq]
      have finish (ref : ContentRef) : Alike Eq
          (fun result result' => SameObject result.2 result'.2)
          (pure (ref, storedData ref data) : Action _) (pure (ref, storedData ref data')) :=
        .pure (sameObject_storedData ref data data')
      cases (Entries.get? "object_id" data).bind Json.asInt? with
      | some id => exact finish _
      | none =>
          refine (Alike.refl _).bind ?_
          rintro content _ rfl
          refine (Alike.refl _).bind ?_
          rintro ref _ rfl
          exact finish ref

mutual

theorem alike_createContents : ∀ {tree tree' : Sketch}, tree.Related Interchangeable tree' →
    Alike Eq (Sketch.Related SameObject) (createContents functions tree)
      (createContents functions tree')
  | ⟨data, _⟩, ⟨data', _⟩, ⟨same, below⟩ => by
      rw [createContents, createContents]
      refine (alike_createAllContents below).bind fun children children' related => ?_
      have tag : Entries.get? "content_type" data = Entries.get? "content_type" data' :=
        same.entries _ (by decide) (by decide)
      unfold Sketch.isBlock Sketch.get?
      simp only [tag]
      by_cases block : (Entries.get? "content_type" data').isNone = true
      · rw [if_pos block, if_pos block]
        refine .pure ⟨⟨tag, ?_⟩, related⟩
        unfold storedRef
        rw [same.kindOf_eq, same.entries "object_id" (by decide) (by decide)]
      · rw [if_neg block, if_neg block]
        refine (alike_createContent same).bind fun result result' stored => ?_
        exact .pure ⟨stored, related⟩

theorem alike_createAllContents : ∀ {trees trees' : List Sketch},
    Sketch.RelatedAll Interchangeable trees trees' →
      Alike Eq (Sketch.RelatedAll SameObject) (createAllContents functions trees)
        (createAllContents functions trees')
  | [], _, empty => by
      cases empty
      exact .pure rfl
  | _ :: _, _, ⟨_, _, equal, here, others⟩ => by
      cases equal
      rw [createAllContents, createAllContents]
      refine (alike_createContents here).bind fun tree tree' related => ?_
      refine (alike_createAllContents others).bind fun rest rest' related' => ?_
      exact .pure ⟨tree', rest', rfl, related, related'⟩

end

/-! ## Nodes -/

mutual

theorem createNodes_related {parent : NodeId} {position : Nat} : ∀ {tree tree' : Sketch},
    tree.Related SameObject tree' →
      createNodes parent position tree = createNodes parent position tree'
  | ⟨_, _⟩, ⟨_, _⟩, ⟨⟨_, same⟩, below⟩ => by
      rw [createNodes, createNodes, same]
      simp only [createNodesFrom_related below]

theorem createNodesFrom_related {parent : NodeId} {position : Nat} :
    ∀ {trees trees' : List Sketch}, Sketch.RelatedAll SameObject trees trees' →
      createNodesFrom parent position trees = createNodesFrom parent position trees'
  | [], _, empty => by
      cases empty
      rfl
  | _ :: _, _, ⟨_, _, equal, here, others⟩ => by
      cases equal
      rw [createNodesFrom, createNodesFrom, createNodes_related here]
      simp only [createNodesFrom_related others]

end

theorem createTree_related {parts : List Sketch} (related : tree.Related SameObject tree') :
    createTree functions parts tree = createTree functions parts tree' := by
  rcases tree with ⟨data, children⟩
  rcases tree' with ⟨data', children'⟩
  rcases related with ⟨⟨tag, same⟩, below⟩
  unfold createTree Sketch.isBlock Sketch.get?
  simp only [tag, same, createNodesFrom_related below]

/-! ## Whole creations -/

theorem alike_bindVariables {external : List ContentRef}
    (related : tree.Related Interchangeable tree') :
    Alike Eq (fun result result' => result.1 = result'.1 ∧
        result.2.Related Interchangeable result'.2)
      (bindVariables tree external) (bindVariables tree' external) := by
  unfold bindVariables
  refine (Alike.refl _).bind ?_
  rintro known _ rfl
  rw [newNames_related known related]
  refine (Alike.refl _).bind ?_
  rintro ⟨names, parts⟩ _ rfl
  exact .pure ⟨rfl, related.mapData fun _ _ same => same.bindData names⟩

/-- Sketches whose parts are interchangeable are stored in the same way, whether or not this
succeeds. -/
theorem create_congr {version : Option Version} (related : tree.Related Interchangeable tree') :
    create functions tree version = create functions tree' version := by
  unfold create
  refine bind_congr fun external => congrArg Store.transaction (Alike.eq ?_)
  refine (alike_bindVariables related).bind ?_
  rintro ⟨parts, bound⟩ ⟨parts', bound'⟩ ⟨parts_eq, same⟩
  simp only at parts_eq same
  subst parts_eq
  simp only [check_related same]
  refine (Alike.refl _).bind ?_
  rintro _ _ rfl
  refine (alike_createContents same).bind fun contents contents' stored => ?_
  rw [createTree_related stored]
  exact .refl _

end Creation

end RuleTree
