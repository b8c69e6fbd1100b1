import RuleTree.Proofs.Block.Decoding
import RuleTree.Proofs.Block.Describing
import RuleTree.Proofs.Evaluation.Created

/-!
# Documents that are imported again

The document of a tree can be imported, and the new tree has the document of the old one, apart from
the numbers of the nodes (`Reachable.import_build`).
-/

namespace RuleTree

open Records

namespace Block

open Creation Evaluation

variable {names : Names} {records : Records} {floor : Int}

/-! ## Trees that were created from figures -/

theorem visible_cons {id : NodeId} {rest : List NodeId} {node : Node}
    (found : records.nodes.get? id = some node)
    (other : node.content.map ContentRef.kind ≠ some .definition) :
    visible records (id :: rest) = node :: visible records rest := by
  unfold visible
  rw [List.filterMap_cons_some found, List.filter_cons_of_pos (by simpa using other)]

theorem visible_append (first second : List NodeId) :
    visible records (first ++ second) = visible records first ++ visible records second := by
  unfold visible
  rw [List.filterMap_append, List.filter_append]

/-- Definitions are not visible. -/
theorem visible_definitions (linked : Linked records) {parts : List Sketch} {ids : List NodeId}
    (mirrors : MirrorsAll records floor (IsDefinition records) parts ids) :
    visible records ids = [] := by
  induction parts generalizing ids with
  | nil =>
      cases mirrors
      rfl
  | cons part rest ih =>
      rcases mirrors with ⟨id, others, rfl, here, mirrors⟩
      rcases part with ⟨data, children⟩
      rcases here with ⟨_, ⟨node, ref, found, wraps, name, stored⟩, _⟩
      have kind : ref.kind = .definition := (linked.addressed stored).2.symm
      have hidden := ih mirrors
      unfold visible at hidden ⊢
      rw [List.filterMap_cons_some found, List.filter_cons_of_neg (by simp [wraps, kind]), hidden]

/-- A node that wraps what the data of a mark describe. -/
theorem node_of_described (linked : Linked records) (named : Named names records) {mark : Mark}
    {id : Option String} {node : Node} {ref : ContentRef} (readable : mark.Readable)
    (wraps : node.content = some ref)
    (described : Described none records (bindData names (Figure.withId id mark.data)) ref) :
    node.content.map ContentRef.kind ≠ some .definition ∧
      ∃ content, records.objects.get? ref = some content ∧ Marks records content mark := by
  rcases marks_of_described readable named described with ⟨content, stored, same, marks⟩
  refine ⟨?_, content, stored, marks⟩
  have kind : ref.kind = mark.kind := (linked.addressed stored).2.symm.trans same
  rw [wraps, Option.map_some, kind]
  cases mark <;> simp [Mark.kind]

theorem usesName_of_mirrors (linked : Linked records) (named : Named names records)
    {name : String} {id : NodeId}
    (mirrors : Mirrors records floor (fun data => Described none records (bindData names data))
      ⟨(Mark.use name).data, []⟩ id) :
    ∃ node, records.nodes.get? id = some node ∧
      node.content.map ContentRef.kind ≠ some .definition ∧ UsesName records name node := by
  rcases mirrors with ⟨_, ⟨node, ref, found, wraps, described⟩, _⟩
  rcases @node_of_described _ _ linked named (.use name) none _ _ trivial wraps described with
    ⟨other, content, stored, marks⟩
  cases marks with
  | use defined => exact ⟨node, found, other, ref, _, _, wraps, stored, defined⟩

mutual

/-- A tree with the shape of the sketch of a figure is drawn by the figure. -/
theorem draws_of_mirrors (linked : Linked records) (named : Named names records) :
    ∀ {figure : Figure} {id : NodeId}, figure.Fits →
      Mirrors records floor (fun data => Described none records (bindData names data))
        figure.sketch id →
          ∃ node, records.nodes.get? id = some node ∧
            node.content.map ContentRef.kind ≠ some .definition ∧
              Draws records false figure.bare node
  | ⟨mark, number, operands⟩, id, ⟨counted, readable, fit⟩, mirrors => by
      rcases mirrors with ⟨_, ⟨node, ref, found, wraps, described⟩, below⟩
      rcases node_of_described linked named readable wraps described with
        ⟨other, content, stored, marks⟩
      cases linked.keyed found
      refine ⟨node, found, other, rfl, ⟨ref, content, wraps, stored, marks⟩, ?_⟩
      cases mark with
      | assignment name =>
          rcases below with ⟨target, others, ordered, here, below⟩
          rcases usesName_of_mirrors linked named here with ⟨aim, aim_found, aim_other, uses⟩
          refine ⟨visible records others, ⟨aim, ?_, uses⟩,
            drawsAll_of_mirrors linked named fit below⟩
          rw [shown, ordered, visible_cons aim_found aim_other]
      | binary op | unary op | call title =>
          exact ⟨_, rfl, drawsAll_of_mirrors linked named fit below⟩
      | _ =>
          -- A block without slots has no operands.
          cases operands with
          | nil => exact ⟨_, drawsAll_of_mirrors linked named fit below,
              drawsAll_of_mirrors linked named fit below⟩
          | cons first rest => cases counted

theorem drawsAll_of_mirrors (linked : Linked records) (named : Named names records) :
    ∀ {figures : List Figure} {ids : List NodeId}, Figure.AllFit figures →
      MirrorsAll records floor (fun data => Described none records (bindData names data))
        (Figure.sketches figures) ids →
          DrawsAll records false (Figure.bareAll figures) (visible records ids)
  | [], _, _, empty => by
      cases empty
      rfl
  | _ :: _, _, ⟨fits, fit⟩, ⟨id, others, same, here, mirrors⟩ => by
      rcases draws_of_mirrors linked named fits here with ⟨node, found, other, draws⟩
      rw [same, visible_cons found other]
      exact ⟨node, visible records others, rfl, draws, drawsAll_of_mirrors linked named fit mirrors⟩

end

/-- A block that was created from the sketches of figures is complete, and the figures draw it. -/
theorem draws_of_created {functions : Option Library} {known : Names} {before : Records}
    {figures : List Figure} {root : Node} {parts : List Sketch} (tidy : Tidy records)
    (fit : Figure.AllFit figures)
    (whole : Created functions known (.block (Figure.sketches figures)) before root names parts
      records) :
    Reading.Sound records root ∧
      DrawsAll records false (Figure.bareAll figures) (written records root) := by
  rcases whole.rooted.block rfl with ⟨bare, heads, ids, ordered, definitions, statements⟩
  have draws := drawsAll_of_mirrors tidy.linked whole.named fit
    (statements.imp_walk fun _ _ _ described => described.unchecked)
  have shown_eq : written records root = visible records ids := by
    have block : root.isBlock = true := by
      rw [Node.isBlock, bare]
      rfl
    rw [written, if_pos block, shown, ordered, visible_append,
      visible_definitions tidy.linked definitions, List.nil_append]
  refine ⟨⟨whole.rooted.stored, whole.supplied (written_block figures)⟩, ?_⟩
  rw [shown_eq]
  exact draws

/-- A block of the sketches of figures can be created, and the figures draw it. -/
theorem exists_create_figures {store : Store} {figures : List Figure} (tidy : Tidy store.records)
    (fit : Figure.AllFit figures)
    (room : Word.InRange (store.records.lastObject + blockSize (Figure.sketches figures))) :
    ∃ root after,
      create none (.block (Figure.sketches figures)) none store = (.ok root, after) ∧
        Tidy after.records ∧ Reading.Sound after.records root ∧
          DrawsAll after.records false (Figure.bareAll figures) (written after.records root) := by
  rcases @exists_create none store (Figure.sketches figures) tidy (fun names => check_block fit)
    (fun names bound => ready_sketches fit bound) room with ⟨root, after, created⟩
  have tidy_after := tidy_create tidy created
  rcases create_spec tidy (fun part member => (written_block _ part member).no_object) created with
    ⟨known, names, parts, _, whole⟩
  exact ⟨root, after, created, tidy_after, draws_of_created tidy_after fit whole⟩

/-! ## Either way to read -/

/-- The first look at a node through a snapshot loads the tree below it, so that everything that
the tree needs is stored. -/
theorem sound_of_ensure (tidy : Tidy records) {node : Node} {reading : Reading}
    (stored : records.nodes.get? node.id = some node)
    (done : Reading.ensure records node.id Reading.start = (.ok (), reading)) :
    Reading.Sound records node := by
  rcases Step.bind_eq_ok.mp done with ⟨_, first, opened, done⟩
  rcases Step.bind_eq_ok.mp done with ⟨snapshot, second, now, done⟩
  rcases Step.outcome_eq.mp opened with ⟨_, rfl⟩
  rcases Step.outcome_eq.mp now with ⟨same, rfl⟩
  cases same
  exact ⟨stored, (Reading.load_eq_ok tidy Snapshot.faithful_empty stored done).2.2⟩

theorem sound_of_build (tidy : Tidy records) {ids : Bool} {node : Node} {text : String}
    {after : Reading} (stored : records.nodes.get? node.id = some node)
    (built : build records .cached ids node Reading.start = (.ok text, after)) :
    Reading.Sound records node := by
  rcases Step.bind_eq_ok.mp built with ⟨element, first, done, _⟩
  by_cases block : node.isBlock = true
  · simp only [document, block, if_true] at done
    rcases Step.bind_eq_ok.mp done with ⟨statements, second, read, _⟩
    rcases Step.bind_eq_ok.mp read with ⟨children, third, read, _⟩
    rcases Step.bind_eq_ok.mp read with ⟨_, fourth, ensured, _⟩
    exact sound_of_ensure tidy stored ensured
  · simp only [document, block] at done
    rcases Step.bind_eq_ok.mp done with ⟨one, second, own, _⟩
    rcases Step.bind_eq_ok.mp own with ⟨content, third, known, _⟩
    cases wraps : node.content with
    | none => exact absurd (by rw [Node.isBlock, wraps]; rfl) block
    | some ref =>
        simp only [Reading.content, Reading.cachedContent, wraps] at known
        rcases Step.bind_eq_ok.mp known with ⟨_, fourth, ensured, _⟩
        exact sound_of_ensure tidy stored ensured

/-- A document that is written through a snapshot is also written node by node. -/
theorem build_direct (tidy : Tidy records) {access : Access} {ids : Bool} {node : Node}
    {text : String} (stored : records.nodes.get? node.id = some node)
    (built : (build records access ids node Reading.start).1 = .ok text) :
    (build records .direct ids node Reading.start).1 = .ok text := by
  cases access with
  | direct => exact built
  | cached =>
      rcases outcome : build records .cached ids node Reading.start with ⟨answer, after⟩
      rw [outcome] at built
      cases built
      rcases alike_build tidy ids (sound_of_build tidy stored outcome) Reading.start Reading.start
        Snapshot.faithful_empty with ⟨_, texts⟩
      rw [← texts.eq fun _ _ agree => agree, outcome]

/-- However the tree is read, figures draw it whose document is the one that it has. -/
theorem figures_of_build (tidy : Tidy records) {access : Access} {ids : Bool} {node : Node}
    {text : String} (stored : records.nodes.get? node.id = some node)
    (built : (build records access ids node Reading.start).1 = .ok text) :
    ∃ figures, DrawsAll records ids figures (written records node) ∧ Figure.AllFit figures ∧
      text = String.ofList (Figure.document figures).write := by
  have direct := build_direct tidy stored built
  rcases outcome : build records .direct ids node Reading.start with ⟨answer, final⟩
  rw [outcome] at direct
  cases direct
  exact draws_of_build tidy.linked stored outcome

/-- However the tree is read, its document is that of the figures that draw it. -/
theorem build_of_draws (tidy : Tidy records) {access : Access} {ids : Bool} {node : Node}
    {figures : List Figure} (stored : records.nodes.get? node.id = some node)
    (sound : access = .cached → Reading.Sound records node)
    (draws : DrawsAll records ids figures (written records node)) (fit : Figure.AllFit figures) :
    (build records access ids node Reading.start).1 =
      .ok (String.ofList (Figure.document figures).write) := by
  rcases yields_build tidy.linked stored draws fit Reading.start with ⟨after, direct⟩
  cases access with
  | direct => rw [direct]
  | cached =>
      rcases alike_build tidy ids (sound rfl) Reading.start Reading.start Snapshot.faithful_empty
        with ⟨_, texts⟩
      rw [texts.eq fun _ _ agree => agree, direct]

theorem sound_of_cached (tidy : Tidy records) {access : Access} {ids : Bool} {node : Node}
    {text : String} (stored : records.nodes.get? node.id = some node)
    (built : (build records access ids node Reading.start).1 = .ok text) :
    access = .cached → Reading.Sound records node := by
  rintro rfl
  rcases outcome : build records .cached ids node Reading.start with ⟨answer, after⟩
  rw [outcome] at built
  cases built
  exact sound_of_build tidy stored outcome

end Block

/-- How many objects importing a document stores. -/
def Creation.importSize (document : String) : Nat :=
  match Block.read document with
  | .ok statements => blockSize statements
  | .error _ => 0

/-- Whenever a tree has a document, the document can be imported into any store that has 64-bit
numbers left for the objects, and without the numbers of the nodes the new tree has the document
that the tree itself has. -/
theorem Reachable.import_build {source target : Store} (reachable : Reachable source)
    (into : Reachable target) {node : Node} {access : Access} {ids : Bool} {text : String}
    (stored : source.records.nodes.get? node.id = some node)
    (built : (Block.build source.records access ids node Reading.start).1 = .ok text)
    (room : Word.InRange (target.records.lastObject + Creation.importSize text)) :
    ∃ plain root after,
      (Block.build source.records access false node Reading.start).1 = .ok plain ∧
        Creation.importDocument none text none target = (.ok root, after) ∧
          ∀ access', (Block.build after.records access' false root Reading.start).1 =
            .ok plain := by
  have tidy := reachable.tidy
  have sound := Block.sound_of_cached tidy stored built
  rcases Block.figures_of_build tidy stored built with ⟨figures, draws, fit, rfl⟩
  have bare := Block.drawsAll_bare draws
  have bare_fit := Block.allFit_bare fit
  have read := Block.read_document fit
  rw [Creation.importSize, read] at room
  rcases Block.exists_create_figures into.tidy fit room with
    ⟨root, after, created, tidy_after, sound_after, draws_after⟩
  refine ⟨_, root, after, Block.build_of_draws tidy stored sound bare bare_fit, ?_, fun access' =>
    Block.build_of_draws tidy_after sound_after.stored (fun _ => sound_after) draws_after bare_fit⟩
  refine Step.bind_eq_ok.mpr ⟨Block.Figure.sketches figures, target, ?_, created⟩
  show ((Block.read _).mapError Error.structural, target) = _
  rw [read]
  rfl

/-- The block of an assignment to a variable. -/
def Block.oneFigure : Block.Figure := ⟨.assignment "x", none, [⟨.boolean true, none, []⟩]⟩

theorem Block.allFit_oneFigure : Figure.AllFit [oneFigure] :=
  ⟨⟨rfl, trivial, ⟨rfl, trivial, trivial⟩, trivial⟩, trivial⟩

/-- The assignment can be created in an empty store, and the tree is drawn by its figure. -/
theorem Block.exists_create_oneFigure : ∃ root after,
    Creation.create none (.block (Figure.sketches [oneFigure])) none Store.empty =
        (.ok root, after) ∧
      Reachable after ∧ Reading.Sound after.records root ∧
        DrawsAll after.records false [oneFigure] (written after.records root) := by
  have room : Word.InRange (Store.empty.records.lastObject +
      Creation.blockSize (Figure.sketches [oneFigure])) := by decide
  rcases exists_create_figures tidy_empty allFit_oneFigure room with
    ⟨root, after, created, _, sound, draws⟩
  have reachable := Reachable.create none (.block (Figure.sketches [oneFigure])) none .empty
  rw [created] at reachable
  exact ⟨root, after, created, reachable, sound, draws⟩

/-- A tree with one assignment in it, which is imported into an empty store. -/
theorem import_build_assignment : ∃ store node text, Reachable store ∧
    store.records.nodes.get? node.id = some node ∧
      (Block.build store.records .cached false node Reading.start).1 = .ok text ∧
        ∃ plain root after,
          (Block.build store.records .cached false node Reading.start).1 = .ok plain ∧
            Creation.importDocument none text none Store.empty = (.ok root, after) ∧
              ∀ access, (Block.build after.records access false root Reading.start).1 =
                .ok plain := by
  have fit := Block.allFit_oneFigure
  rcases Block.exists_create_oneFigure with ⟨node, store, _, reachable, sound, draws⟩
  have built := @Block.build_of_draws _ reachable.tidy .cached _ _ _ sound.stored
    (fun _ => sound) draws fit
  refine ⟨store, node, _, reachable, sound.stored, built, ?_⟩
  refine reachable.import_build .empty sound.stored built ?_
  rw [Creation.importSize, Block.read_document fit]
  decide

end RuleTree
