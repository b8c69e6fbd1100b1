import RuleTree.Proofs.Block.Describing
import RuleTree.Proofs.Evaluation.Created

/-!
# What a drawn block stands for

A regular block stands for the sketches of the figures that draw it (`Block.stands_of_draws`), as
long as no two definitions in use share a name.  Created blocks are regular
(`Block.regular_of_created`).
-/

namespace RuleTree

open Creation Evaluation

/-- Below the block, definitions occur as its children only, and every node has as many children as
its kind asks for: definitions, constants and variables have none, operators have their operands,
and assignments have a variable and an expression. -/
structure Records.Regular (records : Records) (root : NodeId) : Prop where
  definitions : ∀ {id node ref}, Relation.ReflTransGen records.ChildOf root id →
    records.nodes.get? id = some node → node.content = some ref → ref.kind = .definition →
      records.ChildOf root id
  counted : ∀ {id node ref count}, Relation.ReflTransGen records.ChildOf root id →
    records.nodes.get? id = some node → node.content = some ref → ref.kind.arity = .fixed count →
      (records.childList id).length = count

namespace Block

open Records

variable {names : Names} {records : Records} {ids : Bool}

/-! ## Regular trees -/

section Regular

variable {root : NodeId}

/-- No child below the children of the block is a definition. -/
theorem shown_eq (linked : Linked records) (regular : records.Regular root) {node : Node}
    (under : records.Under root node.id) :
    shown records node.id = (records.orderedChildren node.id).filterMap records.nodes.get? := by
  refine List.filter_eq_self.mpr fun child member => ?_
  rcases List.mem_filterMap.mp member with ⟨id, listed, found⟩
  rcases linked.keyed found with rfl
  rw [mem_orderedChildren] at listed
  simp only [decide_eq_true_eq]
  intro definition
  rcases Option.map_eq_some_iff.mp definition with ⟨ref, wraps, kind⟩
  have own := regular.definitions (under.to_reflTransGen.tail listed) found wraps kind
  rcases linked.owner_unique own listed with rfl
  exact linked.not_under_self node.id under

theorem childless_of_arity (regular : records.Regular root) {node : Node} {ref : ContentRef}
    (path : Relation.ReflTransGen records.ChildOf root node.id)
    (found : records.nodes.get? node.id = some node) (wraps : node.content = some ref)
    (alone : ref.kind.arity = .fixed 0) : records.orderedChildren node.id = [] := by
  apply List.eq_nil_of_length_eq_zero
  rw [orderedChildren_perm.length_eq]
  exact regular.counted path found wraps alone

/-- The data are those of the mark of an object below the block. -/
def Marked (records : Records) (root : NodeId) (data : Fields) (ref : ContentRef) : Prop :=
  ∃ id node content mark number, Relation.ReflTransGen records.ChildOf root id ∧
    records.nodes.get? id = some node ∧ node.content = some ref ∧
      records.objects.get? ref = some content ∧ Marks records content mark ∧
        data = Figure.withId number mark.data

theorem kind_of_marks {content : Content} {mark : Mark} (marks : Marks records content mark) :
    content.kind = mark.kind := by
  cases marks <;> rfl

/-- The variable of an assignment has the shape of its name in the mark. -/
theorem mirrors_target (linked : Linked records) (regular : records.Regular root) {target : Node}
    {name : String} (under : records.Under root target.id)
    (found : records.nodes.get? target.id = some target) (uses : UsesName records name target) :
    Mirrors records root.val (Marked records root) ⟨(Mark.use name).data, []⟩ target.id := by
  rcases uses with ⟨ref, definition, source, wraps, use, stored⟩
  have kind : ref.kind = .use := (linked.addressed use).2.symm
  have path := under.to_reflTransGen
  refine ⟨linked.lt_of_under under, ⟨target, ref, found, wraps, target.id, target, _, .use name,
    none, path, found, wraps, use, .use stored, rfl⟩, ?_⟩
  exact childless_of_arity regular path found wraps (by rw [kind]; rfl)

mutual

/-- A tree below a regular block has the shape of the figure that draws it. -/
theorem mirrors_of_draws (linked : Linked records) (regular : records.Regular root) :
    ∀ {figure : Figure} {node : Node}, Draws records ids figure node →
      records.Under root node.id → records.nodes.get? node.id = some node →
        Mirrors records root.val (Marked records root) figure.sketch node.id
  | ⟨mark, number, operands⟩, node, ⟨_, ⟨ref, content, wraps, stored, marks⟩, others, own, draws⟩,
      under, found => by
      have path := under.to_reflTransGen
      have kind : ref.kind = mark.kind :=
        (linked.addressed stored).2.symm.trans (kind_of_marks marks)
      have present : ∀ id ∈ records.orderedChildren node.id, records.Under root id ∧
          ∃ child, records.nodes.get? id = some child := by
        intro id member
        rcases linked.owned (mem_orderedChildren.mp member) with ⟨child, stored, _⟩
        exact ⟨under.tail (mem_orderedChildren.mp member), child, stored⟩
      rw [shown_eq linked regular under] at own
      refine ⟨linked.lt_of_under under,
        ⟨node, ref, found, wraps, _, node, content, mark, number, path, found, wraps, stored, marks,
          rfl⟩, ?_⟩
      cases mark with
      | assignment name =>
          -- The variable stands in a field of the block, so only the expression is drawn.
          rcases own with ⟨target, nodes_eq, uses⟩
          cases list : records.orderedChildren node.id with
          | nil =>
              rw [list] at nodes_eq
              cases nodes_eq
          | cons id rest =>
              rw [list] at nodes_eq present
              rcases present id (by simp) with ⟨target_under, child, target_found⟩
              rw [List.filterMap_cons_some target_found] at nodes_eq
              cases nodes_eq
              rcases linked.keyed target_found with rfl
              exact ⟨_, rest, rfl,
                mirrors_target linked regular target_under target_found uses,
                mirrorsAll_of_draws linked regular draws fun other member =>
                  present other (by simp [member])⟩
      | binary op | unary op | call title =>
          cases own
          exact mirrorsAll_of_draws linked regular draws present
      | _ =>
          -- Children of a constant would not be drawn, but a regular tree has none.
          cases own
          rw [childless_of_arity regular path found wraps (by rw [kind]; rfl)]
          exact mirrorsAll_of_draws linked regular draws fun _ impossible => by cases impossible

theorem mirrorsAll_of_draws (linked : Linked records) (regular : records.Regular root) :
    ∀ {figures : List Figure} {list : List NodeId},
      DrawsAll records ids figures (list.filterMap records.nodes.get?) →
        (∀ id ∈ list, records.Under root id ∧ ∃ node, records.nodes.get? id = some node) →
          MirrorsAll records root.val (Marked records root) (Figure.sketches figures) list
  | [], [], _, _ => rfl
  | [], id :: _, empty, present => by
      rcases present id (by simp) with ⟨_, node, found⟩
      have impossible : _ = [] := empty
      rw [List.filterMap_cons_some found] at impossible
      cases impossible
  | figure :: rest, [], ⟨_, _, impossible, _⟩, _ => by cases impossible
  | figure :: rest, id :: list, ⟨node, others, same, here, draws⟩, present => by
      rcases present id (by simp) with ⟨under, node', found⟩
      rw [List.filterMap_cons_some found] at same
      cases same
      rcases linked.keyed found with rfl
      exact ⟨_, list, rfl, mirrors_of_draws linked regular here under found,
        mirrorsAll_of_draws linked regular draws fun other member =>
          present other (by simp [member])⟩

end

/-- The children of a regular block are its definitions and the trees that are drawn. -/
theorem listed_of_draws (linked : Linked records) (regular : records.Regular root)
    (supplied : Reading.Supplied records root) {figures : List Figure} {list : List NodeId}
    (draws : DrawsAll records ids figures (visible records list))
    (own : ∀ id ∈ list, records.ChildOf root id) :
    Listed records root.val (Marked records root) list (Figure.sketches figures) := by
  induction list generalizing figures with
  | nil =>
      cases figures with
      | nil => exact .nil
      | cons figure rest =>
          rcases draws with ⟨_, _, impossible, _⟩
          cases impossible
  | cons id rest ih =>
      have child := own id (by simp)
      have own_rest : ∀ other ∈ rest, records.ChildOf root other :=
        fun other member => own other (by simp [member])
      rcases linked.owned child with ⟨node, found, above⟩
      rcases linked.wrapping found above with ⟨ref, wraps⟩
      rcases linked.keyed found with rfl
      unfold visible at draws
      rw [List.filterMap_cons_some found] at draws
      by_cases kind : ref.kind = .definition
      · -- Nothing is written for a definition, but its object was loaded all the same.
        rw [List.filter_cons_of_neg (by simp [wraps, kind])] at draws
        rcases supplied node.id (.single child) node ref found wraps with ⟨content, stored, _⟩
        have content_kind := (linked.addressed stored).2
        rw [kind] at content_kind
        cases content with
        | definition name source =>
            exact .definition ⟨node, ref, name, source, found, wraps, stored⟩
              (childless_of_arity regular (.single child) found wraps (by rw [kind]; rfl))
              (ih draws own_rest)
        | _ => cases content_kind
      · rw [List.filter_cons_of_pos (by simp [wraps, kind])] at draws
        cases figures with
        | nil => cases draws
        | cons figure others =>
            rcases draws with ⟨_, _, same, here, draws⟩
            cases same
            exact .statement (mirrors_of_draws linked regular here (.single child) found)
              (ih draws own_rest)

end Regular

/-! ## Names of definitions -/

/-- Each of some names gets one of its definitions, if it has any. -/
theorem exists_names (defined : String → ObjectId → Prop) (wanted : List String) :
    ∃ names : Names, (∀ name definition, names.get? name = some definition →
      defined name definition) ∧ ∀ name ∈ wanted, ∀ definition, defined name definition →
        ∃ definition', names.get? name = some definition' := by
  induction wanted with
  | nil =>
      refine ⟨.empty, ?_, ?_⟩
      · rintro _ _ ⟨⟩
      · rintro _ ⟨⟩
  | cons name rest ih =>
      rcases ih with ⟨names, sound, complete⟩
      by_cases found : ∃ definition, defined name definition
      · rcases found with ⟨definition, here⟩
        refine ⟨names.insert name definition, ?_, ?_⟩
        · intro other definition' known
          rcases Table.get?_insert_cases known with ⟨rfl, rfl⟩ | ⟨_, old⟩
          · exact here
          · exact sound other definition' old
        · intro other member definition' there
          rw [Table.get?_insert]
          split
          · exact ⟨definition, rfl⟩
          · rename_i differ
            have later : other ∈ rest := by
              rcases List.mem_cons.mp member with same | later
              · exact absurd same.symm differ
              · exact later
            exact complete other later definition' there
      · refine ⟨names, sound, ?_⟩
        intro other member definition there
        rcases List.mem_cons.mp member with rfl | later
        · exact absurd ⟨definition, there⟩ found
        · exact complete other later definition there

/-- An object means what the data of its mark say. -/
theorem meant_of_marks {content : Content} {mark : Mark} {ref : ContentRef}
    (number : Option String) (stored : records.objects.get? ref = some content)
    (marks : Marks records content mark)
    (named : ∀ name definition, mark = .use name → content = .use definition →
      names.get? name = some definition) :
    Meant names records (Figure.withId number mark.data) ref := by
  have described (known : mark.content? names = some content) (readable : mark.Readable)
      (other : ∀ name, mark ≠ .use name) :
      Meant names records (Figure.withId number mark.data) ref := by
    have made := contentOf_mark number readable known fun name _ use => absurd use (other name)
    rw [← kind_of_marks marks] at made
    refine means_of_described (written_mark mark number) ⟨content, ?_, made, stored⟩
    rw [kindOf_mark, kind_of_marks marks]
  cases marks with
  | @use definition name source _ =>
      refine ⟨.use definition, .use name, stored, ?_, .use (named name definition rfl rfl),
        kind?_mark (.use name) number []⟩
      have used : Sketch.used? ⟨Figure.withId number (Mark.use name).data, []⟩ = some name :=
        (usedName?_eq _).symm.trans (usedName?_use name number [])
      unfold Sketch.used? at used
      split at used
      · rename_i label_eq
        cases used
        exact label_eq
      · cases used
  | float finite => exact described rfl finite fun _ impossible => by cases impossible
  | binary known =>
      refine described ?_ trivial fun _ impossible => by cases impossible
      rw [Mark.content?, BinaryOp.symbol_of_ofSymbol? known]
  | unary known =>
      refine described ?_ trivial fun _ impossible => by cases impossible
      rw [Mark.content?, UnaryOp.symbol_of_ofSymbol? known]
  | _ => exact described rfl trivial fun _ impossible => by cases impossible

/-- A regular block stands for the sketches of the figures that draw it, if no two definitions in
use share a name. -/
theorem stands_of_draws (linked : Linked records) {root : Node} (bare : root.content = none)
    (sound : Reading.Sound records root) (regular : records.Regular root.id)
    (distinct : ∀ name definition definition', Uses records root.id name definition →
      Uses records root.id name definition' → definition = definition')
    {figures : List Figure} (draws : DrawsAll records ids figures (shown records root.id)) :
    ∃ names, Stands records root.id.val names (Figure.sketches figures) root := by
  have listed := listed_of_draws linked regular sound.supplied draws
    fun id member => mem_orderedChildren.mp member
  rcases exists_names (Uses records root.id)
      ((Sketch.walkAll (Figure.sketches figures)).filterMap Sketch.used?) with
    ⟨names, known, complete⟩
  have isRoot : root.parent = none := by
    by_contra below
    rcases Option.ne_none_iff_exists'.mp below with ⟨parent, above⟩
    rcases linked.wrapping sound.stored above with ⟨ref, wraps⟩
    rw [bare] at wraps
    cases wraps
  refine ⟨names, sound.stored, bare, isRoot, ?_, listed.imp_walk ?_⟩
  · intro name definition found
    rcases known name definition found with ⟨_, _, _, source, _, _, _, _, stored⟩
    exact ⟨source, stored⟩
  · rintro ⟨data, children⟩ member ref
      ⟨id, node, content, mark, number, path, found, wraps, stored, marks, data_eq⟩
    simp only at data_eq
    subst data_eq
    refine meant_of_marks number stored marks ?_
    rintro name definition rfl rfl
    have wanted : name ∈ (Sketch.walkAll (Figure.sketches figures)).filterMap Sketch.used? :=
      List.mem_filterMap.mpr
        ⟨_, member, (usedName?_eq _).symm.trans (usedName?_use name number children)⟩
    cases marks with
    | @use _ _ source defined =>
        have uses : Uses records root.id name definition :=
          ⟨id, node, ref, source, path, found, wraps, stored, defined⟩
        rcases complete name wanted definition uses with ⟨definition', named⟩
        rw [named, distinct name definition' definition (known name definition' named) uses]

/-! ## Created blocks -/

/-- A part that was checked has the children that its kind asks for, and it is no definition. -/
theorem counted_of_described {functions : Option Library} {isRoot : Bool} {floor : Int}
    {part : Sketch} {node : Node} {ref : ContentRef} (linked : Linked records)
    (written : Written part.data)
    (checked : checkNode functions isRoot (part.mapData (bindData names)) = .ok ())
    (mirrors : Mirrors records floor
      (fun data => Described functions records (bindData names data)) part node.id)
    (found : records.nodes.get? node.id = some node) (wraps : node.content = some ref) :
    ref.kind ≠ .definition ∧
      ∀ count, ref.kind.arity = .fixed count → (records.childList node.id).length = count := by
  rcases mirrors.fits_data found wraps with ⟨content, kind_eq, _, stored⟩
  rcases part with ⟨data, children⟩
  rcases mirrors with ⟨_, _, below⟩
  rw [← (linked.addressed stored).2]
  constructor
  · intro definition
    have kind := (kind?_bindData names data [] []).symm.trans (kindOf_eq_ok.mp kind_eq)
    rw [definition] at kind
    exact written.kind kind
  · intro count fixed
    have counted := (checkNode_eq_ok checked (kindOf_eq_ok.mp kind_eq)).1 count
      (expectedChildren_fixed fixed _)
    rw [Sketch.mapData, length_mapDataAll] at counted
    rw [← orderedChildren_perm.length_eq, below.length_eq, counted]

/-- Created blocks are regular. -/
theorem regular_of_created {functions : Option Library} {known : Names} {tree : Sketch}
    {before : Records} {root : Node} {parts : List Sketch} (linked : Linked records)
    (written : ∀ part ∈ tree.walk, Written part.data)
    (whole : Created functions known tree before root names parts records)
    (block : tree.isBlock = true) : records.Regular root.id := by
  have each {id : NodeId} {node : Node} {ref : ContentRef}
      (path : Relation.ReflTransGen records.ChildOf root.id id)
      (found : records.nodes.get? id = some node) (wraps : node.content = some ref) :
      (ref.kind = .definition → records.ChildOf root.id id) ∧
        ∀ count, ref.kind.arity = .fixed count → (records.childList id).length = count := by
    rcases linked.keyed found with rfl
    cases place_of_created whole block path with
    | root same =>
        rw [same, whole.rooted.stored] at found
        cases found
        rw [(whole.rooted.block block).1] at wraps
        cases wraps
    | definition listed defining childless =>
        rcases defining with ⟨node', ref', name, source, found', wraps', stored⟩
        rw [found] at found'
        cases found'
        rw [wraps] at wraps'
        cases wraps'
        refine ⟨fun _ => listed, fun count fixed => ?_⟩
        rw [← (linked.addressed stored).2] at fixed
        cases fixed
        rw [← orderedChildren_perm.length_eq, childless]
        rfl
    | @part part _ member checked mirrors =>
        rcases counted_of_described linked (written part member) checked mirrors found wraps with
          ⟨other, counted⟩
        exact ⟨fun definition => absurd definition other, counted⟩
  exact ⟨fun path found wraps => (each path found wraps).1,
    fun path found wraps => (each path found wraps).2 _⟩

end Block

end RuleTree
