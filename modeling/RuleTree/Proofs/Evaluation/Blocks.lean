import RuleTree.Proofs.Evaluation.Simulation

/-!
# Blocks and their statements

The children of a block are definitions and, among these, trees with the shapes of its statements
(`Stands`).  Evaluating the block evaluates the statements and puts a null in the place of each
definition (`Stands.run`).
-/

namespace RuleTree.Evaluation

open Step Records Creation

variable {functions : Option Library} {library : Library} {names : Names} {records : Records}
  {floor : Int}

/-! ## Definitions among trees -/

/-- The node is that of a definition. -/
def Defining (records : Records) (id : NodeId) : Prop :=
  ∃ node ref name source, records.nodes.get? id = some node ∧ node.content = some ref ∧
    records.objects.get? ref = some (.definition name source)

/-- Some of the nodes are definitions without children, and the others have the shapes of
sketches. -/
inductive Listed (records : Records) (floor : Int) (fits : Fields → ContentRef → Prop) :
    List NodeId → List Sketch → Prop where
  | nil : Listed records floor fits [] []
  | definition {id : NodeId} {ids : List NodeId} {trees : List Sketch} :
      Defining records id → records.orderedChildren id = [] →
        Listed records floor fits ids trees → Listed records floor fits (id :: ids) trees
  | statement {id : NodeId} {ids : List NodeId} {tree : Sketch} {trees : List Sketch} :
      Mirrors records floor fits tree id →
        Listed records floor fits ids trees → Listed records floor fits (id :: ids) (tree :: trees)

namespace Listed

variable {before : Records} {fits fits' : Fields → ContentRef → Prop} {ids : List NodeId}
  {trees : List Sketch}

theorem of_mirrors (mirrors : MirrorsAll records floor fits trees ids) :
    Listed records floor fits ids trees := by
  induction trees generalizing ids with
  | nil =>
      rcases mirrors with rfl
      exact .nil
  | cons tree rest ih =>
      rcases mirrors with ⟨id, others, rfl, here, mirrors⟩
      exact .statement here (ih mirrors)

theorem behind_definitions {heads : List NodeId}
    (defining : ∀ id ∈ heads, Defining records id ∧ records.orderedChildren id = [])
    (listed : Listed records floor fits ids trees) :
    Listed records floor fits (heads ++ ids) trees := by
  induction heads with
  | nil => exact listed
  | cons id rest ih =>
      rcases defining id (by simp) with ⟨here, childless⟩
      exact .definition here childless (ih fun other member => defining other (by simp [member]))

theorem imp_walk (listed : Listed records floor fits ids trees)
    (imp : ∀ part ∈ Sketch.walkAll trees, ∀ ref, fits part.data ref → fits' part.data ref) :
    Listed records floor fits' ids trees := by
  induction listed with
  | nil => exact .nil
  | definition defining childless _ ih => exact .definition defining childless (ih imp)
  | statement mirrors _ ih =>
      exact .statement
        (mirrors.imp_walk fun part member => imp part (List.mem_append_left _ member))
        (ih fun part member => imp part (List.mem_append_right _ member))

theorem mem_ids (listed : Listed records floor fits ids trees) {id : NodeId} (member : id ∈ ids) :
    Defining records id ∧ records.orderedChildren id = [] ∨
      ∃ tree ∈ trees, Mirrors records floor fits tree id := by
  induction listed with
  | nil => cases member
  | definition defining childless _ ih =>
      rcases List.mem_cons.mp member with rfl | later
      · exact .inl ⟨defining, childless⟩
      · exact ih later
  | @statement _ _ tree _ mirrors _ ih =>
      rcases List.mem_cons.mp member with rfl | later
      · exact .inr ⟨tree, by simp, mirrors⟩
      · rcases ih later with known | ⟨other, other_mem, mirrors⟩
        · exact .inl known
        · exact .inr ⟨other, by simp [other_mem], mirrors⟩

/-- Every part of the sketches is the shape of a node. -/
theorem part_node (listed : Listed records floor fits ids trees) {part : Sketch}
    (member : part ∈ Sketch.walkAll trees) :
    ∃ id ∈ ids, ∃ other, Relation.ReflTransGen records.ChildOf id other ∧
      Mirrors records floor fits part other := by
  induction listed with
  | nil => cases member
  | definition _ _ _ ih =>
      rcases ih member with ⟨id, listed, found⟩
      exact ⟨id, by simp [listed], found⟩
  | @statement id _ _ _ mirrors _ ih =>
      rcases List.mem_append.mp member with here | later
      · exact ⟨id, by simp, mirrors.part_node here⟩
      · rcases ih later with ⟨id, listed, found⟩
        exact ⟨id, by simp [listed], found⟩

/-- What is listed stays listed while nothing is added to its nodes. -/
theorem grown (tidy : Tidy before) (grown : Grown (fun _ => False) before records)
    (imp : ∀ data ref, fits data ref → fits' data ref)
    (listed : Listed before floor fits ids trees) : Listed records floor fits' ids trees := by
  induction listed with
  | nil => exact .nil
  | definition defining childless _ ih =>
      rcases defining with ⟨node, ref, name, source, found, wraps, stored⟩
      refine .definition ⟨node, ref, name, source, grown.nodes found, wraps,
        grown.objects stored⟩ ?_ ih
      rw [orderedChildren_grown tidy grown found not_false, childless]
  | statement mirrors _ ih =>
      exact .statement (mirrors.grown tidy grown (fun _ impossible => impossible.elim)
        (Int.le_refl _) imp) ih

end Listed

/-! ## Values of blocks -/

/-- The values of nodes are those that are stated, with a null for each definition. -/
inductive Padded (records : Records) : List NodeId → List Value → List Value → Prop where
  | nil : Padded records [] [] []
  | definition {id : NodeId} {ids : List NodeId} {values stated : List Value} :
      Defining records id → Padded records ids values stated →
        Padded records (id :: ids) (.null :: values) stated
  | statement {id : NodeId} {ids : List NodeId} {value : Value} {values stated : List Value} :
      ¬Defining records id → Padded records ids values stated →
        Padded records (id :: ids) (value :: values) (value :: stated)

namespace Padded

variable {heads ids : List NodeId} {values stated : List Value}

theorem eq_of_statements (padded : Padded records ids values stated)
    (statements : ∀ id ∈ ids, ¬Defining records id) : values = stated := by
  induction padded with
  | nil => rfl
  | definition defining _ _ => exact absurd defining (statements _ (by simp))
  | statement _ _ ih => rw [ih fun id member => statements id (by simp [member])]

/-- If the definitions come first, so do the nulls. -/
theorem eq_replicate (padded : Padded records (heads ++ ids) values stated)
    (defining : ∀ id ∈ heads, Defining records id)
    (statements : ∀ id ∈ ids, ¬Defining records id) :
    values = List.replicate heads.length .null ++ stated := by
  induction heads generalizing values with
  | nil => exact padded.eq_of_statements statements
  | cons id rest ih =>
      cases padded with
      | definition _ padded =>
          rw [ih padded fun other member => defining other (by simp [member])]
          rfl
      | statement other _ => exact absurd (defining id (by simp)) other

end Padded

/-- The node of a definition gives null. -/
theorem gives_definition [Host] {id : NodeId} {depth : Nat} (linked : Linked records)
    (defining : Defining records id) (childless : records.orderedChildren id = [])
    (shallow : records.listsBelow id < depth) :
    ∃ node, records.nodes.get? id = some node ∧
      Gives (Evaluation.node records .direct depth node) .null := by
  rcases defining with ⟨node, ref, name, source, found, wraps, stored⟩
  refine ⟨node, found, fun run => ?_⟩
  rcases linked.keyed found with rfl
  rcases Nat.exists_eq_add_one.mpr (Nat.zero_lt_of_lt shallow) with ⟨depth, rfl⟩
  rcases gives_content wraps stored run with ⟨middle, done, same⟩
  rcases gives_children linked found middle with ⟨after, done', same'⟩
  refine ⟨after, ?_, same'.trans same⟩
  unfold Evaluation.node
  rw [bind_of_ok done]
  simp only
  rw [bind_of_ok done', childless]
  rfl

theorem not_defining_of_mirrors {tree : Sketch} {id : NodeId}
    (mirrors : Mirrors records floor (Meant names records) tree id) : ¬Defining records id := by
  rintro ⟨node, ref, name, source, found, wraps, stored⟩
  rcases mirrors.fits_data found wraps with ⟨content, label, stored', _, meant, _⟩
  rw [stored] at stored'
  cases stored'
  cases meant with
  | literal constant => cases constant

theorem alike_listed [Host] {ids : List NodeId} {trees : List Sketch} {depth : Nat}
    (linked : Linked records) (named : Named names records) (detached : library.Detached)
    (listed : Listed records floor (Meant names records) ids trees)
    (checked : checkAll functions (Sketch.mapDataAll (bindData names) trees) = .ok ())
    (shallow : ∀ id ∈ ids, records.listsBelow id < depth) :
    Alike (Corresponds library names) (Padded records ids)
      (results (Evaluation.node records .direct depth) (ids.filterMap records.nodes.get?))
      (Sketch.evaluateAll library trees) := by
  induction listed with
  | nil => exact .pure .nil
  | @definition id ids trees defining childless _ ih =>
      rcases gives_definition linked defining childless (shallow id (by simp)) with
        ⟨node, found, gives⟩
      rw [List.filterMap_cons_some found, ← bind_pure (Sketch.evaluateAll library trees)]
      refine gives.bind_alike ?_
      refine (ih checked fun other member => shallow other (by simp [member])).bind ?_
      exact fun values stated padded => .pure (.definition defining padded)
  | @statement id ids tree trees mirrors _ ih =>
      rcases Answer.bind_eq_ok.mp checked with ⟨_, checked_here, checked_rest⟩
      rcases mirrors.stored with ⟨node, found⟩
      rw [List.filterMap_cons_some found]
      refine (alike_evaluate linked named detached mirrors checked_here found
        (shallow id (by simp))).bind fun value value' agree => ?_
      subst agree
      refine (ih checked_rest fun other member => shallow other (by simp [member])).bind ?_
      exact fun values stated padded =>
        .pure (.statement (not_defining_of_mirrors mirrors) padded)

/-! ## Blocks -/

/-- The children of the block are definitions and trees that mean what the statements mean. -/
structure Stands (records : Records) (floor : Int) (names : Names) (statements : List Sketch)
    (root : Node) : Prop where
  stored : records.nodes.get? root.id = some root
  bare : root.content = none
  isRoot : root.parent = none
  named : Named names records
  listed : Listed records floor (Meant names records) (records.orderedChildren root.id) statements

namespace Stands

variable {statements : List Sketch} {root : Node} {name : String} {definition : ObjectId}

/-- The block has the values of the statements, with a null for each definition. -/
theorem run [Host] (stands : Stands records floor names statements root) (linked : Linked records)
    (detached : library.Detached)
    (checked : checkAll functions (Sketch.mapDataAll (bindData names) statements) = .ok ()) :
    Alike (Corresponds library names)
      (fun value stated => ∃ values, value = .list values ∧
        Padded records (records.orderedChildren root.id) values stated)
      (evaluate records .direct library root) (Sketch.evaluateAll library statements) := by
  have shallow := records.listsBelow_lt_depthBound root.id
  rcases Nat.exists_eq_add_one.mpr (Nat.zero_lt_of_lt shallow) with ⟨depth, depth_eq⟩
  apply alike_whole
  rw [depth_eq] at shallow ⊢
  have values := alike_listed linked stands.named detached stands.listed checked
    fun id member => shallow_child linked shallow member
  have isRoot : root.isRoot = true := by simp [Node.isRoot, stands.isRoot]
  unfold Evaluation.node
  refine (gives_no_content stands.bare).bind_alike ?_
  simp only [isRoot, if_true]
  rw [← bind_pure (Sketch.evaluateAll library statements)]
  refine (gives_children linked stands.stored).bind_alike ?_
  exact values.bind fun values stated padded => .pure ⟨values, rfl, padded⟩

/-- While nothing is added to its nodes, the block stands for the same statements. -/
theorem grown {before : Records} (stands : Stands before floor names statements root)
    (tidy : Tidy before) (grown : Grown (fun _ => False) before records) :
    Stands records floor names statements root where
  stored := grown.nodes stands.stored
  bare := stands.bare
  isRoot := stands.isRoot
  named name definition found := by
    rcases stands.named name definition found with ⟨source, stored⟩
    exact ⟨source, grown.objects stored⟩
  listed := by
    rw [orderedChildren_grown tidy grown stands.stored not_false]
    refine stands.listed.grown tidy grown ?_
    rintro data ref ⟨content, label, stored, known⟩
    exact ⟨content, label, grown.objects stored, known⟩

/-- Every node below the block is a definition, or it means what a part of the statements means. -/
theorem below (stands : Stands records floor names statements root) {id : NodeId} {node : Node}
    {ref : ContentRef} (path : Relation.ReflTransGen records.ChildOf root.id id)
    (found : records.nodes.get? id = some node) (wraps : node.content = some ref) :
    (∃ name source, records.objects.get? ref = some (.definition name source)) ∨
      ∃ part ∈ Sketch.walkAll statements, Meant names records part.data ref := by
  rcases Relation.ReflTransGen.cases_head path with rfl | ⟨child, listed, path⟩
  · rw [stands.stored] at found
    cases found
    rw [stands.bare] at wraps
    cases wraps
  · rcases stands.listed.mem_ids (mem_orderedChildren.mpr listed) with
      ⟨⟨node', ref', name, source, found', wraps', stored⟩, childless⟩ | ⟨tree, member, mirrors⟩
    · rcases Relation.ReflTransGen.cases_head path with rfl | ⟨grandchild, listed, _⟩
      · rw [found] at found'
        cases found'
        rw [wraps] at wraps'
        cases wraps'
        exact .inl ⟨name, source, stored⟩
      · rw [ChildOf, ← mem_orderedChildren, childless] at listed
        cases listed
    · rcases mirrors.fits_below path found wraps with ⟨part, part_mem, meant⟩
      exact .inr ⟨part, Sketch.mem_walkAll.mpr ⟨tree, member, part_mem⟩, meant⟩

/-- Everything that the block needs is stored. -/
theorem sound (stands : Stands records floor names statements root) :
    Reading.Sound records root where
  stored := stands.stored
  supplied id path node ref found wraps := by
    rcases stands.below path found wraps with ⟨name, source, stored⟩ | ⟨part, _, meant⟩
    · refine ⟨_, stored, ?_⟩
      rintro definition ⟨⟩
    · exact stands.named.supplied meant

end Stands

/-! ## Names in use -/

/-- Below a node there is a use of a definition with a name. -/
def Uses (records : Records) (root : NodeId) (name : String) (definition : ObjectId) : Prop :=
  ∃ id node ref source, Relation.ReflTransGen records.ChildOf root id ∧
    records.nodes.get? id = some node ∧ node.content = some ref ∧
      records.objects.get? ref = some (.use definition) ∧
        records.objects.get? ⟨.definition, definition⟩ = some (.definition name source)

namespace Stands

variable {statements : List Sketch} {root : Node} {name : String} {definition : ObjectId}

theorem part_of_use (stands : Stands records floor names statements root)
    (uses : Uses records root.id name definition) :
    names.get? name = some definition ∧
      ∃ part ∈ Sketch.walkAll statements, part.used? = some name := by
  rcases uses with ⟨id, node, ref, source, path, found, wraps, use, stored⟩
  rcases stands.below path found wraps with ⟨_, _, defines⟩ | ⟨part, member, meant⟩
  · rw [use] at defines
    cases defines
  · rcases meant with ⟨content, label, use', label_eq, meant, _⟩
    rw [use] at use'
    cases use'
    cases meant with
    | literal constant => cases constant
    | @use other _ known =>
        rcases stands.named _ _ known with ⟨_, stored'⟩
        rw [stored] at stored'
        cases stored'
        exact ⟨known, part, member, by simp only [Sketch.used?, label_eq]⟩

theorem use_of_part (stands : Stands records floor names statements root) {part : Sketch}
    (member : part ∈ Sketch.walkAll statements) (used : part.used? = some name) :
    ∃ definition, Uses records root.id name definition := by
  rcases stands.listed.part_node member with ⟨id, listed, other, path, mirrors⟩
  rcases part with ⟨data, children⟩
  rcases mirrors with ⟨_, ⟨node, ref, found, wraps, content, label, stored, label_eq, meant, _⟩, _⟩
  simp only [Sketch.used?, label_eq] at used
  cases meant with
  | @use other definition known =>
      cases used
      rcases stands.named _ _ known with ⟨source, defined⟩
      exact ⟨definition, other, node, ref, source, .head (mem_orderedChildren.mp listed) path,
        found, wraps, stored, defined⟩
  | _ => cases used

end Stands

end RuleTree.Evaluation
